import Mathlib.Algebra.Order.Ring.Rat
import Mathlib.Data.List.Sort
import OpenstackPlatform.Library.Table
import OpenstackPlatform.Library.Calendar
import OpenstackPlatform.Library.Lines

/-!
# Backup retention

`prune` of `backup_retention.py`: which files of a backup directory it unlinks, and in which order.
A backup is a family of files of one name, the ciphertext, a `.sha256` and a `.manifest`.  The
manifest is the commit marker, so it is unlinked first.

`prune` reads the directory before it unlinks anything.  What it does is therefore a function of the
directory it finds, and a stop leaves a prefix of its unlinks.  The log lines are left out.

* `Pattern`, `scan`: the backups of a directory, by the names of its files.
* `prune`: the unlinks in order, and how the call ends.
* `PruneSafe`: what `prune` may not do.
* `pruneSafe_iff`: when it does not do it.
* `archive_lost`: an archive that is removed although a set names it.
-/

namespace OpenstackPlatform
namespace BackupRetention

open Library Text Calendar JsonText

/-! ## The directory -/

/-- A directory entry that is not followed: a regular file with its owner, whether it may be read,
and its bytes, or something else. -/
inductive Entry where
  | file (owned readable : Bool) (content : List ℕ)
  | other

/-- A direct regular file of the current user. -/
def Entry.isSafe : Entry → Bool
  | .file owned _ _ => owned
  | .other => false

/-- The bytes of a regular file. -/
def Entry.content : Entry → Option (List ℕ)
  | .file _ _ content => some content
  | .other => none

/-- The entries of a directory under their names. -/
abbrev Directory := Table Text Entry

/-- `_SUFFIXES` -/
inductive Suffix where
  | ciphertext
  | checksum
  | manifest
  deriving DecidableEq

namespace Suffix

/-- The suffixes in the order in which a backup commits. -/
def all : List Suffix := [.ciphertext, .checksum, .manifest]

def text : Suffix → Text
  | ciphertext => []
  | checksum => ofString ".sha256"
  | manifest => ofString ".manifest"

theorem mem_all (s : Suffix) : s ∈ all := by
  cases s <;> decide

end Suffix

/-- `_pattern` -/
structure Pattern where
  series : Text
  extension : Text

namespace Pattern

/-- The text before a timestamp. -/
def stem (p : Pattern) : Text := p.series ++ ofString "-"

/-- The name of the backup of a timestamp. -/
def name (p : Pattern) (timestamp : Text) : Text := p.stem ++ (timestamp ++ p.extension)

/-- The timestamp and the suffix of a name that matches. -/
def fullmatch (p : Pattern) (entry : Text) : Option (Text × Suffix) :=
  Suffix.all.findSome? fun suffix =>
    let timestamp := (entry.drop p.stem.length).take 16
    if isTimestamp timestamp && entry == p.name timestamp ++ suffix.text then
      some (timestamp, suffix)
    else none

end Pattern

/-- The members of the JSON object in a manifest, as Python's `json` reads them. -/
abbrev Members := List (Text × Value)

/-- `dict.get`: the last of several members of one name counts. -/
def Members.get (members : Members) (key : Text) : Option Value :=
  (members.reverse.find? fun member => member.1 == key).map (·.2)

/-- A value is a name. -/
def isName (name : Text) : Option Value → Bool
  | some (.str s) => s == name
  | _ => false

/-- `_Set` -/
structure BackupSet where
  name : Text
  created : ℕ
  present : Suffix → Bool
  isUnsafe : Bool
  manifest : Option Members

namespace BackupSet

def committed (backup : BackupSet) : Bool := backup.present .manifest

/-- The manifest has the name of its set. -/
def named (backup : BackupSet) : Bool :=
  match backup.manifest with
  | some members => isName backup.name (members.get (ofString "name"))
  | none => false

def complete (backup : BackupSet) : Bool :=
  !backup.isUnsafe && Suffix.all.all backup.present && backup.named

end BackupSet

/-! ## `_scan` -/

section Scan

-- `json.loads` of the decoded bytes of a manifest, `none` when it raises `ValueError` or the value is
-- not an object.  It raises another exception where the nesting is too deep.
variable (loads : List ℕ → Except Unit (Option Members))

/-- `_read_manifest`, of a file that may be read. -/
def readManifest (dir : Directory) (name : Text) : Option Members :=
  match dir.lookup name with
  | some (.file _ _ content) =>
    if content.length ≤ 65536 then (loads content).toOption.join else none
  | _ => none

/-- One entry that matches, with the backups found before it. -/
def addEntry (p : Pattern) (sets : Table Text BackupSet) (entry : Text × Entry) :
    Table Text BackupSet :=
  match p.fullmatch entry.1 with
  | none => sets
  | some (timestamp, suffix) =>
    match seconds timestamp with
    | none => sets
    | some created =>
      let backup := (sets.lookup (p.name timestamp)).getD
        ⟨p.name timestamp, created, fun _ => false, false, none⟩
      sets.insert (p.name timestamp)
        { backup with
          isUnsafe := backup.isUnsafe || !entry.2.isSafe
          present := fun s => backup.present s || s == suffix }

/-- The order of the names of entries. -/
def entryLE (a b : Text × Entry) : Prop := a.1 ≤ b.1

instance : DecidableRel entryLE := fun a b => inferInstanceAs (Decidable (a.1 ≤ b.1))

/-- The directory in the order of its names, without `.staging`. -/
def listing (dir : Directory) : List (Text × Entry) :=
  ((dir.entries.map fun e => (e.1, e.2)).insertionSort entryLE).filter
    fun e => e.1 != ofString ".staging"

/-- The backups of a pattern, without their manifests. -/
def collect (p : Pattern) (entries : List (Text × Entry)) : Table Text BackupSet :=
  entries.foldl (addEntry p) ∅

/-- A committed backup without an unsafe member, with its manifest. -/
def withManifest (dir : Directory) (backup : BackupSet) : BackupSet :=
  if backup.committed && !backup.isUnsafe then
    { backup with manifest := readManifest loads dir (backup.name ++ Suffix.manifest.text) }
  else backup

/-- Reading the manifest of a backup raises. -/
def unreadable (dir : Directory) (backup : BackupSet) : Bool :=
  backup.committed && !backup.isUnsafe &&
    match dir.lookup (backup.name ++ Suffix.manifest.text) with
    | some (.file _ readable content) =>
      !readable || decide (content.length ≤ 65536) && (loads content).toOption.isNone
    | _ => false

/-- The order of the names of backups. -/
def nameLE (a b : BackupSet) : Prop := a.name ≤ b.name

instance : DecidableRel nameLE := fun a b => inferInstanceAs (Decidable (a.name ≤ b.name))

/-- The backups of a pattern in the order of their names. -/
def scan (dir : Directory) (p : Pattern) (entries : List (Text × Entry)) : List BackupSet :=
  ((collect p entries).entries.map fun e => withManifest loads dir e.2).insertionSort nameLE

end Scan

/-! ## `prune` -/

/-- The arguments of `prune`; times are in seconds. -/
structure Request where
  series : Text
  keep : Text
  now : ℚ
  keySeries : Option Text
  days : ℤ
  minimum : ℤ

/-- The exceptions of `prune`. -/
inductive PruneError where
  | value
  | overflow
  | os
  | newBackupNotCommitted
  | unhashable
  deriving DecidableEq

namespace Request

/-- The pattern of the SQLite backups. -/
def backups (r : Request) : Pattern := ⟨r.series, ofString ".sqlite3.age"⟩

/-- The pattern of the deploy-key archives. -/
def archives (series : Text) : Pattern := ⟨series, ofString ".tar.age"⟩

def cutoff (r : Request) : ℚ := r.now - r.days * 86400

end Request

section Prune

variable (loads : List ℕ → Except Unit (Option Members)) (dir : Directory) (r : Request)

/-- `backups` -/
def backupSets : List BackupSet := scan loads dir r.backups (listing dir)

/-- `keys`: an entry goes to the first pattern that it matches. -/
def archiveSets : List BackupSet :=
  match r.keySeries with
  | none => []
  | some series => scan loads dir (Request.archives series)
      ((listing dir).filter fun e => (r.backups.fullmatch e.1).isNone)

/-- The order of names backwards. -/
def nameGE (a b : BackupSet) : Prop := nameLE b a

instance : DecidableRel nameGE := fun a b => inferInstanceAs (Decidable (nameLE b a))

instance : Std.Total nameGE := ⟨fun a b => le_total b.name a.name⟩

instance : IsTrans BackupSet nameGE := ⟨fun _ _ _ hab hbc => le_trans hbc hab⟩

/-- `newest` -/
def newest : List BackupSet :=
  ((backupSets loads dir r).filter (·.complete)).insertionSort nameGE

/-- `floor` -/
def floor : List Text :=
  ((newest loads dir r).take r.minimum.toNat).map (·.name) ++ [r.keep]

/-- The test of the first loop. -/
def expires (backup : BackupSet) : Bool :=
  !(backup.isUnsafe || (floor loads dir r).contains backup.name ||
    decide (r.cutoff ≤ backup.created)) && (backup.complete || !backup.committed)

/-- The names that `_remove` unlinks, in order. -/
def removal (backup : BackupSet) : List Text :=
  (Suffix.all.reverse.filter backup.present).map fun s => backup.name ++ s.text

/-- A backup after the first loop: `_remove` clears what is present. -/
def swept (backup : BackupSet) : BackupSet :=
  if expires loads dir r backup then { backup with present := fun _ => false } else backup

/-- `remaining` -/
def remaining : List BackupSet :=
  ((backupSets loads dir r).map (swept loads dir r)).filter fun b => Suffix.all.any b.present

/-- `referenced` -/
def referenced : List (Option Value) :=
  ((remaining loads dir r).filterMap (·.manifest)).map fun m => m.get (ofString "sourceKeys")

/-- A value that a Python set does not take. -/
def isUnhashable : Option Value → Bool
  | some (.arr _) => true
  | some (.obj _) => true
  | _ => false

/-- The test of the second loop. -/
def archiveExpires (archive : BackupSet) : Bool :=
  !(archive.isUnsafe || (referenced loads dir r).any (isName archive.name) ||
    (remaining loads dir r).any (fun b => b.created == archive.created) ||
    decide (r.cutoff ≤ archive.created)) && (archive.complete || !archive.committed)

/-- `prune`: the names that it unlinks, in order, and the number of sets that it removed, or the
exception that it raised. -/
def prune : List Text × Except PruneError ℕ :=
  if r.days < 0 ∨ r.minimum < 1 then ([], .error .value)
  else if r.cutoff < 86400 then ([], .error .overflow)
  else if (backupSets loads dir r ++ archiveSets loads dir r).any (unreadable loads dir) then
    ([], .error .os)
  else if !((newest loads dir r).map (·.name)).contains r.keep then
    ([], .error .newBackupNotCommitted)
  else
    let removed := (backupSets loads dir r).filter (expires loads dir r)
    let unlinked := removed.flatMap removal
    if r.keySeries.isSome && (referenced loads dir r).any isUnhashable then
      (unlinked, .error .unhashable)
    else
      let archives := (archiveSets loads dir r).filter (archiveExpires loads dir r)
      (unlinked ++ archives.flatMap removal, .ok (removed.length + archives.length))

end Prune

/-! ## Names -/

theorem Suffix.text_injective {s s' : Suffix} (h : s.text = s'.text) : s = s' := by
  have hlength := congrArg List.length h
  revert hlength
  cases s <;> cases s' <;> decide

theorem length_of_isTimestamp {timestamp : Text} (h : isTimestamp timestamp = true) :
    timestamp.length = 16 :=
  (parts_of_isTimestamp h).length

/-- A name that matches is put together from what is read off it. -/
theorem Pattern.fullmatch_eq_some_iff {p : Pattern} {entry timestamp : Text} {s : Suffix} :
    p.fullmatch entry = some (timestamp, s) ↔
      isTimestamp timestamp = true ∧ entry = p.name timestamp ++ s.text := by
  constructor
  · intro h
    obtain ⟨s', -, hs'⟩ := List.exists_of_findSome?_eq_some h
    dsimp only at hs'
    split at hs'
    · rename_i hok
      cases hs'
      rw [Bool.and_eq_true, beq_iff_eq] at hok
      exact hok
    · cases hs'
  · rintro ⟨htimestamp, rfl⟩
    have hlength := length_of_isTimestamp htimestamp
    have htake : ((p.name timestamp ++ s.text).drop p.stem.length).take 16 = timestamp := by
      rw [Pattern.name, List.append_assoc, List.drop_left, List.append_assoc, ← hlength,
        List.take_left]
    have hstep : ∀ s' : Suffix,
        (if isTimestamp timestamp && p.name timestamp ++ s.text == p.name timestamp ++ s'.text then
          some (timestamp, s') else none) = if s' = s then some (timestamp, s) else none := by
      intro s'
      rw [htimestamp, Bool.true_and]
      by_cases heq : s' = s
      · rw [heq, if_pos rfl, if_pos (beq_self_eq_true _)]
      · rw [if_neg heq, if_neg]
        intro h
        exact heq (Suffix.text_injective (List.append_cancel_left (beq_iff_eq.mp h))).symm
    unfold Pattern.fullmatch
    simp only [htake, hstep]
    cases s <;> rfl

/-- Where a name comes from is read off it. -/
theorem Pattern.name_append_inj {p : Pattern} {a b : Text} {s s' : Suffix}
    (ha : isTimestamp a = true) (hb : isTimestamp b = true)
    (h : p.name a ++ s.text = p.name b ++ s'.text) : a = b ∧ s = s' := by
  have h₁ : p.fullmatch (p.name a ++ s.text) = some (a, s) :=
    Pattern.fullmatch_eq_some_iff.mpr ⟨ha, rfl⟩
  have h₂ := Pattern.fullmatch_eq_some_iff.mpr ⟨hb, h⟩
  exact Prod.mk.inj (Option.some.inj (h₁.symm.trans h₂))

theorem Pattern.name_injective {p : Pattern} {a b : Text} (ha : isTimestamp a = true)
    (hb : isTimestamp b = true) (h : p.name a = p.name b) : a = b := by
  have happend : p.name a ++ Suffix.manifest.text = p.name b ++ Suffix.manifest.text := by rw [h]
  exact (Pattern.name_append_inj ha hb happend).1

/-- No file is part of a backup and of an archive. -/
theorem Pattern.disjoint (series series' a b : Text) (s s' : Suffix) :
    Pattern.name ⟨series, ofString ".sqlite3.age"⟩ a ++ s.text ≠
      Pattern.name ⟨series', ofString ".tar.age"⟩ b ++ s'.text := by
  intro h
  have h₁ : ofString ".sqlite3.age" ++ s.text <:+
      Pattern.name ⟨series, ofString ".sqlite3.age"⟩ a ++ s.text :=
    ⟨Pattern.stem ⟨series, ofString ".sqlite3.age"⟩ ++ a, by simp [Pattern.name]⟩
  have h₂ : ofString ".tar.age" ++ s'.text <:+
      Pattern.name ⟨series, ofString ".sqlite3.age"⟩ a ++ s.text :=
    ⟨Pattern.stem ⟨series', ofString ".tar.age"⟩ ++ b, by rw [h]; simp [Pattern.name]⟩
  have hsuffix := List.suffix_or_suffix_of_suffix h₁ h₂
  revert hsuffix
  cases s <;> cases s' <;> decide

/-- `.staging` is not part of a backup. -/
theorem Pattern.ne_staging {p : Pattern} {timestamp : Text} (h : isTimestamp timestamp = true)
    (s : Suffix) : p.name timestamp ++ s.text ≠ ofString ".staging" := by
  intro heq
  have hlength := congrArg List.length heq
  have hstaging : (ofString ".staging").length = 8 := by decide
  rw [hstaging, List.length_append, Pattern.name, List.length_append, List.length_append,
    length_of_isTimestamp h] at hlength
  omega

/-! ## What `_scan` finds -/

section Found

variable (p : Pattern) (entries : List (Text × Entry)) (timestamp : Text) (created : ℕ)

/-- An entry belongs to the backup of a timestamp. -/
def isMember (entry : Text) : Bool := Suffix.all.any fun s => entry == p.name timestamp ++ s.text

/-- The backup of a timestamp among some entries, without its manifest. -/
def setOf : BackupSet where
  name := p.name timestamp
  created := created
  present := fun s => entries.any fun e => e.1 == p.name timestamp ++ s.text
  isUnsafe := entries.any fun e => isMember p timestamp e.1 && !e.2.isSafe
  manifest := none

/-- There is an entry that belongs to the backup of a timestamp. -/
def isFound : Bool := entries.any fun e => isMember p timestamp e.1

variable {p entries timestamp created}

theorem isMember_iff {entry : Text} : isMember p timestamp entry = true ↔
    ∃ s : Suffix, entry = p.name timestamp ++ s.text := by
  rw [isMember, List.any_eq_true]
  constructor
  · rintro ⟨s, -, h⟩
    exact ⟨s, beq_iff_eq.mp h⟩
  · rintro ⟨s, h⟩
    exact ⟨s, Suffix.mem_all s, beq_iff_eq.mpr h⟩

/-- An entry that does not belong to a backup does not change it. -/
theorem setOf_append_of_not {e : Text × Entry} (h : isMember p timestamp e.1 = false) :
    setOf p (entries ++ [e]) timestamp created = setOf p entries timestamp created ∧
      isFound p (entries ++ [e]) timestamp = isFound p entries timestamp := by
  have hne : ∀ s : Suffix, (e.1 == p.name timestamp ++ s.text) = false := by
    intro s
    by_contra heq
    rw [Bool.not_eq_false, beq_iff_eq] at heq
    rw [isMember_iff.mpr ⟨s, heq⟩] at h
    cases h
  constructor
  · simp only [setOf, List.any_append, List.any_cons, List.any_nil, h, hne, Bool.or_false,
      Bool.false_and]
  · simp only [isFound, List.any_append, List.any_cons, List.any_nil, h, Bool.or_false]

/-- An entry that belongs to a backup is counted in it. -/
theorem setOf_append_of_mem {e : Text × Entry} {s : Suffix}
    (h : e.1 = p.name timestamp ++ s.text) :
    setOf p (entries ++ [e]) timestamp created =
      { setOf p entries timestamp created with
        isUnsafe := (setOf p entries timestamp created).isUnsafe || !e.2.isSafe
        present := fun s' => (setOf p entries timestamp created).present s' || s' == s } := by
  have hmember : isMember p timestamp e.1 = true := isMember_iff.mpr ⟨s, h⟩
  have heq : ∀ s' : Suffix, (e.1 == p.name timestamp ++ s'.text) = (s' == s) := by
    intro s'
    rw [h, Bool.eq_iff_iff, beq_iff_eq, beq_iff_eq]
    constructor
    · intro htext
      exact (Suffix.text_injective (List.append_cancel_left htext)).symm
    · intro hs
      rw [hs]
  simp only [setOf, List.any_append, List.any_cons, List.any_nil, hmember, heq, Bool.or_false,
    Bool.true_and]

/-- Without an entry nothing is known of a backup. -/
theorem setOf_of_not_found (h : isFound p entries timestamp = false) :
    setOf p entries timestamp created = ⟨p.name timestamp, created, fun _ => false, false, none⟩ := by
  have hnone : ∀ e ∈ entries, isMember p timestamp e.1 = false := by
    intro e he
    exact Bool.eq_false_iff.mpr fun hmember =>
      Bool.eq_false_iff.mp h (List.any_eq_true.mpr ⟨e, he, hmember⟩)
  have hpresent : ∀ s : Suffix, (entries.any fun e => e.1 == p.name timestamp ++ s.text) = false := by
    intro s
    rw [List.any_eq_false]
    intro e he heq
    have hmember := isMember_iff.mpr ⟨s, beq_iff_eq.mp heq⟩
    rw [hnone e he] at hmember
    cases hmember
  have hbad : (entries.any fun e => isMember p timestamp e.1 && !e.2.isSafe) = false := by
    rw [List.any_eq_false]
    intro e he
    rw [hnone e he, Bool.false_and]
    exact Bool.false_ne_true
  simp only [setOf, hpresent, hbad]

/-- The backups of `collect` are those of the entries. -/
theorem lookup_collect (htime : seconds timestamp = some created) :
    (collect p entries).lookup (p.name timestamp) =
      if isFound p entries timestamp then some (setOf p entries timestamp created) else none := by
  have hform := isTimestamp_of_seconds htime
  induction entries using List.reverseRecOn with
  | nil => rfl
  | append_singleton entries e ih =>
    rw [collect, List.foldl_append, List.foldl_cons, List.foldl_nil]
    rw [collect] at ih
    by_cases hmember : isMember p timestamp e.1 = true
    · obtain ⟨s, hs⟩ := isMember_iff.mp hmember
      have hmatch := Pattern.fullmatch_eq_some_iff.mpr ⟨hform, hs⟩
      have hfound : isFound p (entries ++ [e]) timestamp = true := by
        rw [isFound, List.any_append, List.any_cons, hmember, Bool.true_or, Bool.or_true]
      have hbefore : ((entries.foldl (addEntry p) ∅).lookup (p.name timestamp)).getD
          ⟨p.name timestamp, created, fun _ => false, false, none⟩ =
            setOf p entries timestamp created := by
        rw [ih]
        split
        · rfl
        · rename_i hnot
          rw [setOf_of_not_found (Bool.eq_false_iff.mpr hnot)]
          rfl
      rw [addEntry, hmatch]
      simp only [htime]
      rw [AList.lookup_insert, if_pos hfound, hbefore, setOf_append_of_mem hs]
    · have hnot := Bool.eq_false_iff.mpr hmember
      obtain ⟨hset, hfound⟩ := @setOf_append_of_not p entries timestamp created e hnot
      rw [hset, hfound, ← ih]
      unfold addEntry
      split
      · rfl
      · rename_i timestamp' s hmatch
        obtain ⟨hform', hs⟩ := Pattern.fullmatch_eq_some_iff.mp hmatch
        split
        · rfl
        · refine AList.lookup_insert_ne fun heq => ?_
          obtain rfl := Pattern.name_injective hform hform' heq
          exact hmember (isMember_iff.mpr ⟨s, hs⟩)

/-- `collect` has backups of timestamps only. -/
theorem name_of_lookup {n : Text} {backup : BackupSet}
    (h : (collect p entries).lookup n = some backup) :
    ∃ timestamp created, seconds timestamp = some created ∧ n = p.name timestamp := by
  induction entries using List.reverseRecOn generalizing backup with
  | nil => cases h
  | append_singleton entries e ih =>
    rw [collect, List.foldl_append, List.foldl_cons, List.foldl_nil] at h
    unfold addEntry at h
    split at h
    · exact ih h
    · rename_i timestamp s hmatch
      split at h
      · exact ih h
      · rename_i created htime
        rw [Table.lookup_insert_ite] at h
        split at h
        · rename_i heq
          exact ⟨timestamp, created, htime, heq⟩
        · exact ih h

/-- The backups that `scan` returns. -/
theorem mem_scan {loads : List ℕ → Except Unit (Option Members)} {dir : Directory}
    {backup : BackupSet} :
    backup ∈ scan loads dir p entries ↔ ∃ timestamp created, seconds timestamp = some created ∧
      isFound p entries timestamp = true ∧
        backup = withManifest loads dir (setOf p entries timestamp created) := by
  rw [scan, List.mem_insertionSort, List.mem_map]
  constructor
  · rintro ⟨⟨n, b⟩, he, rfl⟩
    have hlookup := Table.lookup_eq_some_iff.mpr he
    obtain ⟨timestamp, created, htime, rfl⟩ := name_of_lookup hlookup
    rw [lookup_collect htime] at hlookup
    split at hlookup
    · rename_i hfound
      exact ⟨timestamp, created, htime, hfound, by rw [Option.some.inj hlookup]⟩
    · cases hlookup
  · rintro ⟨timestamp, created, htime, hfound, rfl⟩
    refine ⟨⟨p.name timestamp, setOf p entries timestamp created⟩, ?_, rfl⟩
    refine Table.lookup_eq_some_iff.mp ?_
    rw [lookup_collect htime, if_pos hfound]

@[simp] theorem withManifest_name (loads : List ℕ → Except Unit (Option Members))
    (dir : Directory) (backup : BackupSet) : (withManifest loads dir backup).name = backup.name := by
  unfold withManifest
  split <;> rfl

/-- No two backups have one name. -/
theorem nodup_scan (loads : List ℕ → Except Unit (Option Members)) (dir : Directory)
    (p : Pattern) (entries : List (Text × Entry)) : ((scan loads dir p entries).map (·.name)).Nodup := by
  have hperm : ((scan loads dir p entries).map (·.name)).Perm
      (((collect p entries).entries.map fun e => withManifest loads dir e.2).map (·.name)) :=
    (List.perm_insertionSort nameLE _).map _
  refine hperm.nodup_iff.mpr ?_
  have hkeys : ((collect p entries).entries.map fun e => withManifest loads dir e.2).map (·.name) =
      (collect p entries).entries.keys := by
    rw [List.map_map, List.keys]
    refine List.map_congr_left fun e he => ?_
    have hlookup := Table.lookup_eq_some_iff.mpr he
    obtain ⟨timestamp, created, htime, hname⟩ := name_of_lookup hlookup
    rw [hname, lookup_collect htime] at hlookup
    split at hlookup
    · rw [Function.comp_apply, withManifest_name, ← Option.some.inj hlookup, hname]
      rfl
    · cases hlookup
  rw [hkeys]
  exact (collect p entries).nodupKeys

end Found

/-! ## The backups of a directory -/

/-- Every member of a backup is a direct regular file of the current user. -/
def IsSafe (dir : Directory) (name : Text) : Prop :=
  ∀ (s : Suffix) (e : Entry), dir.lookup (name ++ s.text) = some e → e.isSafe = true

section View

variable (loads : List ℕ → Except Unit (Option Members)) (dir : Directory) (p : Pattern)
  (timestamp : Text) (created : ℕ)

/-- What the manifest of a backup says. -/
def manifestOf (name : Text) : Option Members := readManifest loads dir (name ++ Suffix.manifest.text)

/-- A backup has all its members, and its manifest has its name. -/
structure IsComplete (name : Text) : Prop where
  present : ∀ s : Suffix, (dir.lookup (name ++ s.text)).isSome = true
  safe : IsSafe dir name
  named : ∃ members, manifestOf loads dir name = some members ∧
    isName name (members.get (ofString "name")) = true

/-- The bytes of the manifest of a backup. -/
def manifestBytes (name : Text) : Option (List ℕ) :=
  (dir.lookup (name ++ Suffix.manifest.text)).bind Entry.content

/-- The manifest of a backup names an archive, whatever its size and the state of the other files. -/
def Refers (name archive : Text) : Prop :=
  ∃ content members, manifestBytes dir name = some content ∧
    (loads content).toOption.join = some members ∧
      isName archive (members.get (ofString "sourceKeys")) = true

theorem refers_iff {name archive : Text} : Refers loads dir name archive ↔
    (manifestBytes dir name).any (fun content => (loads content).toOption.join.any
      fun members => isName archive (members.get (ofString "sourceKeys"))) = true := by
  rw [Option.any_eq_true]
  refine exists_congr fun content => ?_
  rw [exists_and_left, Option.any_eq_true]

/-- `prune` does not read the manifest of a set with a member that is not a regular file of the user,
nor one that is longer than the bound. -/
def Unread (name : Text) : Prop :=
  ¬IsSafe dir name ∨ ∃ content ∈ manifestBytes dir name, 65536 < content.length

variable {dir} in
theorem manifestOf_of_bytes {name : Text} {content : List ℕ}
    (h : manifestBytes dir name = some content) : manifestOf loads dir name =
      if content.length ≤ 65536 then (loads content).toOption.join else none := by
  obtain ⟨entry, hlookup, hentry⟩ := Option.bind_eq_some_iff.mp h
  rw [manifestOf, readManifest, hlookup]
  cases entry with
  | other => cases hentry
  | file owned readable bytes =>
    cases hentry
    rfl

variable {loads dir} in
/-- A manifest that is read says what it says. -/
theorem manifestOf_of_refers {name archive : Text} (h : Refers loads dir name archive)
    (hread : ¬Unread dir name) : ∃ members, manifestOf loads dir name = some members ∧
      isName archive (members.get (ofString "sourceKeys")) = true := by
  obtain ⟨content, members, hbytes, hloads, hname⟩ := h
  have hlength : content.length ≤ 65536 := by
    by_contra hlong
    exact hread (.inr ⟨content, hbytes, not_le.mp hlong⟩)
  refine ⟨members, ?_, hname⟩
  rw [manifestOf_of_bytes loads hbytes, if_pos hlength, hloads]

variable {loads dir} in
/-- The manifest of a complete set is read. -/
theorem IsComplete.not_unread {name : Text} (h : IsComplete loads dir name) : ¬Unread dir name := by
  rintro (hbad | ⟨content, hbytes, hlong⟩)
  · exact hbad h.safe
  · obtain ⟨members, hread, -⟩ := h.named
    rw [manifestOf_of_bytes loads hbytes, if_neg (not_le.mpr hlong)] at hread
    cases hread

/-- The backup of a timestamp in a directory, without its manifest. -/
def bare : BackupSet where
  name := p.name timestamp
  created := created
  present := fun s => (dir.lookup (p.name timestamp ++ s.text)).isSome
  isUnsafe := Suffix.all.any fun s => (dir.lookup (p.name timestamp ++ s.text)).any (!·.isSafe)
  manifest := none

/-- The backup of a timestamp in a directory. -/
def view : BackupSet := withManifest loads dir (bare dir p timestamp created)

variable {loads dir p timestamp created}

@[simp] theorem view_name : (view loads dir p timestamp created).name = p.name timestamp :=
  withManifest_name _ _ _

@[simp] theorem view_created : (view loads dir p timestamp created).created = created := by
  unfold view withManifest
  split <;> rfl

@[simp] theorem view_present (s : Suffix) : (view loads dir p timestamp created).present s =
    (dir.lookup (p.name timestamp ++ s.text)).isSome := by
  unfold view withManifest
  split <;> rfl

theorem bare_isUnsafe : (bare dir p timestamp created).isUnsafe = false ↔
    IsSafe dir (p.name timestamp) := by
  rw [bare, List.any_eq_false]
  constructor
  · intro h s e he
    have hs := h s (Suffix.mem_all s)
    rw [he, Option.any_some, Bool.not_eq_true', Bool.not_eq_false] at hs
    exact hs
  · intro h s _
    cases hlookup : dir.lookup (p.name timestamp ++ s.text) with
    | none => exact Bool.false_ne_true
    | some e =>
      rw [Option.any_some, h s e hlookup]
      exact Bool.false_ne_true

theorem view_isUnsafe : (view loads dir p timestamp created).isUnsafe = false ↔
    IsSafe dir (p.name timestamp) := by
  rw [← @bare_isUnsafe dir p timestamp created]
  unfold view withManifest
  split <;> rfl

theorem view_manifest (hsafe : IsSafe dir (p.name timestamp))
    (hpresent : (dir.lookup (p.name timestamp ++ Suffix.manifest.text)).isSome = true) :
    (view loads dir p timestamp created).manifest = manifestOf loads dir (p.name timestamp) := by
  have hread : ((bare dir p timestamp created).committed &&
      !(bare dir p timestamp created).isUnsafe) = true := by
    rw [bare_isUnsafe.mpr hsafe]
    show ((dir.lookup (p.name timestamp ++ Suffix.manifest.text)).isSome && !false) = true
    rw [hpresent]
    rfl
  rw [view, withManifest, if_pos hread]
  rfl

/-- What `_Set.complete` says of the directory. -/
theorem view_complete : (view loads dir p timestamp created).complete = true ↔
    IsComplete loads dir (p.name timestamp) := by
  rw [BackupSet.complete, Bool.and_eq_true, Bool.and_eq_true, Bool.not_eq_true', view_isUnsafe,
    List.all_eq_true]
  have hnamed : (∀ s : Suffix, (dir.lookup (p.name timestamp ++ s.text)).isSome = true) →
      IsSafe dir (p.name timestamp) →
        ((view loads dir p timestamp created).named = true ↔
          ∃ members, manifestOf loads dir (p.name timestamp) = some members ∧
            isName (p.name timestamp) (members.get (ofString "name")) = true) := by
    intro hpresent hsafe
    rw [BackupSet.named, view_manifest hsafe (hpresent _), view_name]
    cases manifestOf loads dir (p.name timestamp) with
    | none => simp
    | some members => simp
  constructor
  · rintro ⟨⟨hsafe, hall⟩, hname⟩
    have hpresent : ∀ s : Suffix, (dir.lookup (p.name timestamp ++ s.text)).isSome = true := by
      intro s
      rw [← @view_present loads dir p timestamp created]
      exact hall s (Suffix.mem_all s)
    exact ⟨hpresent, hsafe, (hnamed hpresent hsafe).mp hname⟩
  · rintro ⟨hpresent, hsafe, hname⟩
    refine ⟨⟨hsafe, fun s _ => ?_⟩, (hnamed hpresent hsafe).mpr hname⟩
    rw [view_present]
    exact hpresent s

/-- Entries that hold the members of a backup as the directory does. -/
theorem setOf_eq_bare {entries : List (Text × Entry)}
    (h : ∀ (s : Suffix) (e : Entry), (p.name timestamp ++ s.text, e) ∈ entries ↔
      dir.lookup (p.name timestamp ++ s.text) = some e) :
    setOf p entries timestamp created = bare dir p timestamp created ∧
      (isFound p entries timestamp = true ↔
        ∃ s : Suffix, (dir.lookup (p.name timestamp ++ s.text)).isSome = true) := by
  have hpresent : ∀ s : Suffix, (entries.any fun e => e.1 == p.name timestamp ++ s.text) =
      (dir.lookup (p.name timestamp ++ s.text)).isSome := by
    intro s
    rw [Bool.eq_iff_iff, List.any_eq_true, Option.isSome_iff_exists]
    constructor
    · rintro ⟨⟨n, e⟩, he, hn⟩
      obtain rfl := beq_iff_eq.mp hn
      exact ⟨e, (h s e).mp he⟩
    · rintro ⟨e, he⟩
      exact ⟨_, (h s e).mpr he, beq_iff_eq.mpr rfl⟩
  have hbad : (entries.any fun e => isMember p timestamp e.1 && !e.2.isSafe) =
      Suffix.all.any fun s => (dir.lookup (p.name timestamp ++ s.text)).any (!·.isSafe) := by
    rw [Bool.eq_iff_iff, List.any_eq_true, List.any_eq_true]
    constructor
    · rintro ⟨⟨n, e⟩, he, hbad⟩
      obtain ⟨hmember, hbad⟩ := Bool.and_eq_true_iff.mp hbad
      obtain ⟨s, rfl⟩ := isMember_iff.mp hmember
      exact ⟨s, Suffix.mem_all s, by rw [(h s e).mp he]; exact hbad⟩
    · rintro ⟨s, -, hbad⟩
      cases hlookup : dir.lookup (p.name timestamp ++ s.text) with
      | none =>
        rw [hlookup] at hbad
        cases hbad
      | some e =>
        rw [hlookup, Option.any_some] at hbad
        exact ⟨_, (h s e).mpr hlookup, by rw [isMember_iff.mpr ⟨s, rfl⟩, Bool.true_and]; exact hbad⟩
  constructor
  · rw [setOf, bare, hbad]
    simp only [hpresent]
  · rw [isFound, List.any_eq_true]
    constructor
    · rintro ⟨⟨n, e⟩, he, hmember⟩
      obtain ⟨s, rfl⟩ := isMember_iff.mp hmember
      exact ⟨s, by rw [(h s e).mp he]; rfl⟩
    · rintro ⟨s, hs⟩
      obtain ⟨e, he⟩ := Option.isSome_iff_exists.mp hs
      exact ⟨_, (h s e).mpr he, isMember_iff.mpr ⟨s, rfl⟩⟩

end View

/-! ## The sets that `prune` works on -/

section Sets

variable {loads : List ℕ → Except Unit (Option Members)} {dir : Directory} {r : Request}

theorem mem_listing {x : Text} {e : Entry} :
    (x, e) ∈ listing dir ↔ dir.lookup x = some e ∧ x ≠ ofString ".staging" := by
  rw [listing, List.mem_filter, List.mem_insertionSort, List.mem_map, bne_iff_ne,
    Table.lookup_eq_some_iff]
  constructor
  · rintro ⟨⟨⟨n, e'⟩, he, heq⟩, hne⟩
    obtain ⟨rfl, rfl⟩ := Prod.mk.inj heq
    exact ⟨he, hne⟩
  · rintro ⟨he, hne⟩
    exact ⟨⟨_, he, rfl⟩, hne⟩

variable {backup : BackupSet}

/-- The backups of a pattern, from entries that hold its files as the directory does. -/
theorem mem_scan_view {p : Pattern} {entries : List (Text × Entry)}
    (h : ∀ timestamp, isTimestamp timestamp = true → ∀ (s : Suffix) (e : Entry),
      (p.name timestamp ++ s.text, e) ∈ entries ↔ dir.lookup (p.name timestamp ++ s.text) = some e) :
    backup ∈ scan loads dir p entries ↔ ∃ timestamp created, seconds timestamp = some created ∧
      (∃ s : Suffix, (dir.lookup (p.name timestamp ++ s.text)).isSome = true) ∧
        backup = view loads dir p timestamp created := by
  rw [mem_scan]
  constructor
  · rintro ⟨timestamp, created, htime, hfound, rfl⟩
    have hset := @setOf_eq_bare dir p timestamp created _ (h timestamp (isTimestamp_of_seconds htime))
    exact ⟨timestamp, created, htime, hset.2.mp hfound, by rw [hset.1, view]⟩
  · rintro ⟨timestamp, created, htime, hfound, rfl⟩
    have hset := @setOf_eq_bare dir p timestamp created _ (h timestamp (isTimestamp_of_seconds htime))
    exact ⟨timestamp, created, htime, hset.2.mpr hfound, by rw [hset.1, view]⟩

/-- The SQLite backups. -/
theorem mem_backupSets :
    backup ∈ backupSets loads dir r ↔ ∃ timestamp created, seconds timestamp = some created ∧
      (∃ s : Suffix, (dir.lookup (r.backups.name timestamp ++ s.text)).isSome = true) ∧
        backup = view loads dir r.backups timestamp created := by
  refine mem_scan_view fun timestamp hform s e => ?_
  rw [mem_listing]
  exact and_iff_left (Pattern.ne_staging hform s)

/-- The deploy-key archives. -/
theorem mem_archiveSets {series : Text} (hseries : r.keySeries = some series) :
    backup ∈ archiveSets loads dir r ↔ ∃ timestamp created, seconds timestamp = some created ∧
      (∃ s : Suffix,
        (dir.lookup ((Request.archives series).name timestamp ++ s.text)).isSome = true) ∧
        backup = view loads dir (Request.archives series) timestamp created := by
  rw [archiveSets, hseries]
  refine mem_scan_view fun timestamp hform s e => ?_
  rw [List.mem_filter, mem_listing, and_iff_left (Pattern.ne_staging hform s)]
  refine and_iff_left ?_
  cases hmatch : r.backups.fullmatch ((Request.archives series).name timestamp ++ s.text) with
  | none => rfl
  | some found =>
    obtain ⟨timestamp', s'⟩ := found
    exact absurd (Pattern.fullmatch_eq_some_iff.mp hmatch).2.symm (Pattern.disjoint _ _ _ _ _ _)

theorem archiveSets_of_none (h : r.keySeries = none) : archiveSets loads dir r = [] := by
  rw [archiveSets, h]

/-- The files that a removal unlinks. -/
theorem mem_removal {x : Text} :
    x ∈ removal backup ↔ ∃ s : Suffix, backup.present s = true ∧ x = backup.name ++ s.text := by
  rw [removal, List.mem_map]
  constructor
  · rintro ⟨s, hs, rfl⟩
    exact ⟨s, (List.mem_filter.mp hs).2, rfl⟩
  · rintro ⟨s, hs, rfl⟩
    exact ⟨s, List.mem_filter.mpr ⟨List.mem_reverse.mpr (Suffix.mem_all s), hs⟩, rfl⟩

/-- The manifest goes first. -/
theorem removal_of_manifest (h : backup.present .manifest = true) :
    ∃ rest, removal backup = (backup.name ++ Suffix.manifest.text) :: rest := by
  refine ⟨(([Suffix.checksum, Suffix.ciphertext].filter backup.present).map
    fun s => backup.name ++ s.text), ?_⟩
  rw [removal]
  show ((Suffix.manifest :: [Suffix.checksum, Suffix.ciphertext]).filter backup.present).map _ = _
  rw [List.filter_cons_of_pos h, List.map_cons]

/-- What a prefix of several runs holds comes from a prefix of one of them. -/
theorem mem_take_flatMap {α β : Type} {f : α → List β} {l : List α} {k : ℕ} {x : β}
    (h : x ∈ (l.flatMap f).take k) :
    ∃ b ∈ l, ∃ j, x ∈ (f b).take j ∧ ∀ y ∈ (f b).take j, y ∈ (l.flatMap f).take k := by
  induction l generalizing k with
  | nil =>
    rw [List.flatMap_nil, List.take_nil] at h
    cases h
  | cons a l ih =>
    rw [List.flatMap_cons, List.take_append, List.mem_append] at h
    rw [List.flatMap_cons, List.take_append]
    obtain h | h := h
    · exact ⟨a, List.mem_cons_self, k, h, fun y hy => List.mem_append_left _ hy⟩
    · obtain ⟨b, hb, j, hj, hall⟩ := ih h
      exact ⟨b, List.mem_cons_of_mem _ hb, j, hj, fun y hy => List.mem_append_right _ (hall y hy)⟩

end Sets

/-! ## What `prune` unlinks -/

section Unlinks

variable (loads : List ℕ → Except Unit (Option Members)) (dir : Directory) (r : Request)

/-- `prune` comes to its first loop. -/
structure Prunes : Prop where
  arguments : 0 ≤ r.days ∧ 1 ≤ r.minimum
  in_range : 86400 ≤ r.cutoff
  readable : (backupSets loads dir r ++ archiveSets loads dir r).any (unreadable loads dir) = false
  keep : ((newest loads dir r).map (·.name)).contains r.keep = true

/-- `prune` comes to its second loop. -/
structure PrunesArchives : Prop extends Prunes loads dir r where
  series : r.keySeries.isSome = true
  hashable : (referenced loads dir r).any isUnhashable = false

/-- The sets that the first loop removes. -/
def removedSets : List BackupSet := (backupSets loads dir r).filter (expires loads dir r)

/-- The sets that the second loop removes. -/
def removedArchives : List BackupSet := (archiveSets loads dir r).filter (archiveExpires loads dir r)

variable {loads dir r}

theorem prune_of_not (h : ¬Prunes loads dir r) : (prune loads dir r).1 = [] := by
  unfold prune
  split
  · rfl
  · rename_i harguments
    split
    · rfl
    · rename_i hrange
      split
      · rfl
      · rename_i hreadable
        split
        · rfl
        · rename_i hkeep
          refine absurd ⟨by omega, not_lt.mp hrange, Bool.eq_false_iff.mpr hreadable, ?_⟩ h
          rwa [Bool.not_eq_true', Bool.not_eq_false] at hkeep

theorem prune_of_not_archives (h : Prunes loads dir r) (hnot : ¬PrunesArchives loads dir r) :
    (prune loads dir r).1 = (removedSets loads dir r).flatMap removal := by
  have harguments : ¬(r.days < 0 ∨ r.minimum < 1) := by
    have := h.arguments
    omega
  rw [prune, if_neg harguments, if_neg (not_lt.mpr h.in_range), if_neg, if_neg]
  · dsimp only
    split
    · rfl
    · rename_i hgoes
      have hnone : r.keySeries = none := by
        cases hseries : r.keySeries with
        | none => rfl
        | some series =>
          rw [hseries, Option.isSome_some, Bool.true_and, Bool.not_eq_true] at hgoes
          exact absurd ⟨h, by rw [hseries]; rfl, hgoes⟩ hnot
      rw [archiveSets_of_none hnone]
      exact List.append_nil _
  · rw [h.keep]
    exact Bool.false_ne_true
  · rw [h.readable]
    exact Bool.false_ne_true

theorem prune_of_archives (h : PrunesArchives loads dir r) : (prune loads dir r).1 =
    (removedSets loads dir r).flatMap removal ++ (removedArchives loads dir r).flatMap removal := by
  have harguments : ¬(r.days < 0 ∨ r.minimum < 1) := by
    have := h.arguments
    omega
  rw [prune, if_neg harguments, if_neg (not_lt.mpr h.in_range), if_neg, if_neg]
  · dsimp only
    rw [h.hashable, Bool.and_false, if_neg Bool.false_ne_true]
    rfl
  · rw [h.keep]
    exact Bool.false_ne_true
  · rw [h.readable]
    exact Bool.false_ne_true

variable (loads dir r) in
/-- What the test of the first loop says of a set. -/
structure Expires (timestamp : Text) (created : ℕ) : Prop where
  safe : IsSafe dir (r.backups.name timestamp)
  not_floor : r.backups.name timestamp ∉ floor loads dir r
  old : created < r.cutoff
  state : IsComplete loads dir (r.backups.name timestamp) ∨
    (dir.lookup (r.backups.name timestamp ++ Suffix.manifest.text)).isSome = false

theorem expires_iff {timestamp : Text} {created : ℕ} :
    expires loads dir r (view loads dir r.backups timestamp created) = true ↔
      Expires loads dir r timestamp created := by
  rw [expires, Bool.and_eq_true, Bool.not_eq_true', Bool.or_eq_false_iff, Bool.or_eq_false_iff,
    view_isUnsafe, Bool.or_eq_true, view_complete, view_name, view_created, decide_eq_false_iff_not,
    not_le, Bool.not_eq_true', BackupSet.committed, view_present, ← Bool.not_eq_true,
    List.contains_iff_mem]
  constructor
  · rintro ⟨⟨⟨hsafe, hfloor⟩, hold⟩, hstate⟩
    exact ⟨hsafe, hfloor, hold, hstate⟩
  · intro h
    exact ⟨⟨⟨h.safe, h.not_floor⟩, h.old⟩, h.state⟩

end Unlinks

/-! ## Safety -/

section Safety

variable (loads : List ℕ → Except Unit (Option Members)) (dir : Directory) (r : Request)

/-- The patterns that `prune` looks for. -/
def patterns : List Pattern := r.backups :: r.keySeries.toList.map Request.archives

/-- What `prune` may not do.  A stop leaves the directory without the first `n` of the names that it
unlinks, for some `n`. -/
structure PruneSafe : Prop where
  /-- The set just written stays. -/
  kept : ∀ s : Suffix, r.keep ++ s.text ∉ (prune loads dir r).1
  /-- After a committed set that goes there are as many complete ones as the request asks for, and
  they stay. -/
  newest : ∀ timestamp created, seconds timestamp = some created →
    (dir.lookup (r.backups.name timestamp ++ Suffix.manifest.text)).isSome = true →
      ∀ s : Suffix, r.backups.name timestamp ++ s.text ∈ (prune loads dir r).1 →
        ∃ later : List Text, later.Nodup ∧ later.length = r.minimum.toNat ∧
          ∀ name ∈ later, IsComplete loads dir name ∧
            (∃ t c, name = r.backups.name t ∧ seconds t = some c ∧ created < c) ∧
              ∀ s' : Suffix, name ++ s'.text ∉ (prune loads dir r).1
  /-- A set at or after the cutoff stays. -/
  recent : ∀ p ∈ patterns r, ∀ timestamp created, seconds timestamp = some created →
    r.cutoff ≤ created → ∀ s : Suffix, p.name timestamp ++ s.text ∉ (prune loads dir r).1
  /-- What goes belongs to a set of the user's own regular files that is complete or uncommitted. -/
  classified : ∀ x ∈ (prune loads dir r).1, ∃ p ∈ patterns r, ∃ timestamp created s,
    seconds timestamp = some created ∧ x = p.name timestamp ++ Suffix.text s ∧
      IsSafe dir (p.name timestamp) ∧ (IsComplete loads dir (p.name timestamp) ∨
        (dir.lookup (p.name timestamp ++ Suffix.manifest.text)).isSome = false)
  /-- An archive stays while the manifest of a set names it. -/
  archives : ∀ series, r.keySeries = some series → ∀ n timestamp created,
    seconds timestamp = some created → r.backups.name timestamp ++ Suffix.manifest.text ∉
      (prune loads dir r).1.take n → ∀ archive time, seconds archive = some time →
        Refers loads dir (r.backups.name timestamp) ((Request.archives series).name archive) →
          ∀ s : Suffix, (Request.archives series).name archive ++ s.text ∉
            (prune loads dir r).1.take n
  /-- A set with a manifest loses the manifest first. -/
  stops : ∀ n, ∀ p ∈ patterns r, ∀ timestamp created, seconds timestamp = some created →
    (dir.lookup (p.name timestamp ++ Suffix.manifest.text)).isSome = true →
      p.name timestamp ++ Suffix.manifest.text ∉ (prune loads dir r).1.take n →
        ∀ s : Suffix, p.name timestamp ++ s.text ∉ (prune loads dir r).1.take n

/-- The second loop takes a file of an archive that the manifest of a remaining set names, and `prune`
has not read that manifest. -/
def Overlooks : Prop :=
  PrunesArchives loads dir r ∧ ∃ series timestamp created archive time,
    r.keySeries = some series ∧ seconds timestamp = some created ∧ seconds archive = some time ∧
      Unread dir (r.backups.name timestamp) ∧
        Refers loads dir (r.backups.name timestamp) ((Request.archives series).name archive) ∧
          archiveExpires loads dir r (view loads dir (Request.archives series) archive time) = true ∧
            ∃ s : Suffix, (dir.lookup ((Request.archives series).name archive ++ s.text)).isSome = true

variable {loads dir r}

theorem mem_patterns {p : Pattern} : p ∈ patterns r ↔
    p = r.backups ∨ ∃ series, r.keySeries = some series ∧ p = Request.archives series := by
  rw [patterns, List.mem_cons, List.mem_map]
  refine or_congr_right ⟨?_, ?_⟩
  · rintro ⟨series, hseries, rfl⟩
    exact ⟨series, Option.mem_toList.mp hseries, rfl⟩
  · rintro ⟨series, hseries, rfl⟩
    exact ⟨series, Option.mem_toList.mpr hseries, rfl⟩

theorem backups_ne_archives (r : Request) (series : Text) : r.backups ≠ Request.archives series := by
  intro h
  have hlength := congrArg (fun p => p.extension.length) h
  revert hlength
  show (ofString ".sqlite3.age").length ≠ (ofString ".tar.age").length
  decide

variable {s : Suffix}

/-- A name says its pattern, timestamp and suffix. -/
theorem name_inj {p q : Pattern} (hp : p ∈ patterns r) (hq : q ∈ patterns r) {a b : Text}
    {s' : Suffix} (ha : isTimestamp a = true) (hb : isTimestamp b = true)
    (h : p.name a ++ s.text = q.name b ++ s'.text) : p = q ∧ a = b ∧ s = s' := by
  obtain rfl | ⟨series, hseries, rfl⟩ := mem_patterns.mp hp
  · obtain rfl | ⟨series', -, rfl⟩ := mem_patterns.mp hq
    · exact ⟨rfl, Pattern.name_append_inj ha hb h⟩
    · exact absurd h (Pattern.disjoint _ _ _ _ _ _)
  · obtain rfl | ⟨series', hseries', rfl⟩ := mem_patterns.mp hq
    · exact absurd h.symm (Pattern.disjoint _ _ _ _ _ _)
    · cases hseries.symm.trans hseries'
      exact ⟨rfl, Pattern.name_append_inj ha hb h⟩

variable (loads dir r) in
/-- The set of a pattern and a timestamp is one that `prune` removes. -/
def Goes (p : Pattern) (timestamp : Text) (created : ℕ) : Prop :=
  (p = r.backups ∧ Prunes loads dir r ∧ Expires loads dir r timestamp created) ∨
    (∃ series, r.keySeries = some series ∧ p = Request.archives series ∧ PrunesArchives loads dir r ∧
      archiveExpires loads dir r (view loads dir p timestamp created) = true)

/-- What `prune` unlinks are the files of some sets, one set after another. -/
theorem prune_eq : ∃ sets : List BackupSet, (prune loads dir r).1 = sets.flatMap removal ∧
    ∀ backup ∈ sets, ∃ p ∈ patterns r, ∃ timestamp created, seconds timestamp = some created ∧
      backup = view loads dir p timestamp created ∧ Goes loads dir r p timestamp created := by
  have hbackups : Prunes loads dir r → ∀ backup ∈ removedSets loads dir r, ∃ p ∈ patterns r,
      ∃ timestamp created, seconds timestamp = some created ∧
        backup = view loads dir p timestamp created ∧ Goes loads dir r p timestamp created := by
    intro hprunes backup hbackup
    obtain ⟨hmem, hexpires⟩ := List.mem_filter.mp hbackup
    obtain ⟨timestamp, created, htime, -, rfl⟩ := mem_backupSets.mp hmem
    exact ⟨_, mem_patterns.mpr (.inl rfl), timestamp, created, htime, rfl,
      .inl ⟨rfl, hprunes, expires_iff.mp hexpires⟩⟩
  by_cases harchives : PrunesArchives loads dir r
  · refine ⟨removedSets loads dir r ++ removedArchives loads dir r, ?_, ?_⟩
    · rw [prune_of_archives harchives, List.flatMap_append]
    · intro backup hbackup
      obtain hbackup | hbackup := List.mem_append.mp hbackup
      · exact hbackups harchives.toPrunes backup hbackup
      · obtain ⟨hmem, hexpires⟩ := List.mem_filter.mp hbackup
        obtain ⟨series, hseries⟩ := Option.isSome_iff_exists.mp harchives.series
        obtain ⟨timestamp, created, htime, -, rfl⟩ := (mem_archiveSets hseries).mp hmem
        exact ⟨_, mem_patterns.mpr (.inr ⟨series, hseries, rfl⟩), timestamp, created, htime, rfl,
          .inr ⟨series, hseries, rfl, harchives, hexpires⟩⟩
  · by_cases hprunes : Prunes loads dir r
    · exact ⟨removedSets loads dir r, prune_of_not_archives hprunes harchives, hbackups hprunes⟩
    · exact ⟨[], prune_of_not hprunes, fun _ h => absurd h List.not_mem_nil⟩

/-- A file that is gone belongs to a set that goes, and the manifest of the set is gone too. -/
theorem goes_of_unlinked {n : ℕ} {p : Pattern} (hp : p ∈ patterns r) {timestamp : Text}
    {created : ℕ} (htime : seconds timestamp = some created)
    (h : p.name timestamp ++ s.text ∈ (prune loads dir r).1.take n) :
    Goes loads dir r p timestamp created ∧
      (dir.lookup (p.name timestamp ++ s.text)).isSome = true ∧
        ((dir.lookup (p.name timestamp ++ Suffix.manifest.text)).isSome = true →
          p.name timestamp ++ Suffix.manifest.text ∈ (prune loads dir r).1.take n) := by
  obtain ⟨sets, heq, hsets⟩ := @prune_eq loads dir r
  rw [heq] at h ⊢
  obtain ⟨backup, hbackup, j, hj, hall⟩ := mem_take_flatMap h
  obtain ⟨q, hq, timestamp', created', htime', rfl, hgoes⟩ := hsets backup hbackup
  obtain ⟨s', hpresent, hname⟩ := mem_removal.mp (List.mem_of_mem_take hj)
  rw [view_name] at hname
  obtain ⟨rfl, rfl, rfl⟩ := name_inj hp hq (isTimestamp_of_seconds htime)
    (isTimestamp_of_seconds htime') hname
  cases htime.symm.trans htime'
  refine ⟨hgoes, by rwa [view_present] at hpresent, fun hmanifest => hall _ ?_⟩
  have hpresent' : (view loads dir p timestamp created).present .manifest = true := by
    rw [view_present]
    exact hmanifest
  obtain ⟨rest, hrest⟩ := removal_of_manifest hpresent'
  rw [hrest, view_name] at hj ⊢
  cases j with
  | zero => cases hj
  | succ j => exact List.mem_cons_self

/-- Every file of a set that goes is unlinked. -/
theorem unlinked_of_expires {timestamp : Text} {created : ℕ}
    (htime : seconds timestamp = some created) (h : Expires loads dir r timestamp created)
    (hs : (dir.lookup (r.backups.name timestamp ++ s.text)).isSome = true) :
    r.backups.name timestamp ++ s.text ∈ (removedSets loads dir r).flatMap removal := by
  refine List.mem_flatMap.mpr ⟨view loads dir r.backups timestamp created, ?_, ?_⟩
  · exact List.mem_filter.mpr ⟨mem_backupSets.mpr ⟨timestamp, created, htime, ⟨s, hs⟩, rfl⟩,
      expires_iff.mpr h⟩
  · exact mem_removal.mpr ⟨s, by rw [view_present]; exact hs, by rw [view_name]⟩

theorem unlinked_of_archiveExpires {series archive : Text} {time : ℕ}
    (hseries : r.keySeries = some series) (htime : seconds archive = some time)
    (h : archiveExpires loads dir r (view loads dir (Request.archives series) archive time) = true)
    (hs : (dir.lookup ((Request.archives series).name archive ++ s.text)).isSome = true) :
    (Request.archives series).name archive ++ s.text ∈
      (removedArchives loads dir r).flatMap removal := by
  refine List.mem_flatMap.mpr ⟨view loads dir (Request.archives series) archive time, ?_, ?_⟩
  · exact List.mem_filter.mpr
      ⟨(mem_archiveSets hseries).mpr ⟨archive, time, htime, ⟨s, hs⟩, rfl⟩, h⟩
  · exact mem_removal.mpr ⟨s, by rw [view_present]; exact hs, by rw [view_name]⟩

/-- When a file of an archive is gone, the first loop is over. -/
theorem removed_of_archive_gone (h : PrunesArchives loads dir r) {series archive : Text} {n : ℕ}
    (hgone : (Request.archives series).name archive ++ s.text ∈
      (prune loads dir r).1.take n) {x : Text}
    (hx : x ∈ (removedSets loads dir r).flatMap removal) : x ∈ (prune loads dir r).1.take n := by
  rw [prune_of_archives h, List.take_append, List.mem_append] at hgone
  rw [prune_of_archives h, List.take_append]
  obtain hfirst | hsecond := hgone
  · obtain ⟨backup, hbackup, hname⟩ := List.mem_flatMap.mp (List.mem_of_mem_take hfirst)
    obtain ⟨timestamp, created, -, -, rfl⟩ := mem_backupSets.mp (List.mem_filter.mp hbackup).1
    obtain ⟨s', -, heq⟩ := mem_removal.mp hname
    rw [view_name] at heq
    exact absurd heq.symm (Pattern.disjoint _ _ _ _ _ _)
  · have hlength : ((removedSets loads dir r).flatMap removal).length ≤ n := by
      by_contra hlt
      rw [Nat.sub_eq_zero_of_le (by omega), List.take_zero] at hsecond
      cases hsecond
    rw [List.take_of_length_le hlength]
    exact List.mem_append_left _ hx

/-- A set that stays keeps its view. -/
theorem mem_remaining {timestamp : Text} {created : ℕ} (htime : seconds timestamp = some created)
    (hstays : ¬Expires loads dir r timestamp created)
    (hs : (dir.lookup (r.backups.name timestamp ++ s.text)).isSome = true) :
    view loads dir r.backups timestamp created ∈ remaining loads dir r := by
  refine List.mem_filter.mpr ⟨List.mem_map.mpr ⟨view loads dir r.backups timestamp created,
    mem_backupSets.mpr ⟨timestamp, created, htime, ⟨s, hs⟩, rfl⟩, ?_⟩, ?_⟩
  · rw [swept, if_neg]
    rw [expires_iff]
    exact hstays
  · exact List.any_eq_true.mpr ⟨s, Suffix.mem_all s, by rw [view_present]; exact hs⟩

/-- What the test of the second loop leaves out. -/
theorem not_referenced {backup : BackupSet} (h : archiveExpires loads dir r backup = true) :
    (referenced loads dir r).any (isName backup.name) = false ∧ backup.created < r.cutoff := by
  rw [archiveExpires, Bool.and_eq_true, Bool.not_eq_true', Bool.or_eq_false_iff,
    Bool.or_eq_false_iff, Bool.or_eq_false_iff, decide_eq_false_iff_not, not_le] at h
  exact ⟨h.1.1.1.2, h.1.2⟩

theorem safe_of_archiveExpires {p : Pattern} {timestamp : Text} {created : ℕ}
    (h : archiveExpires loads dir r (view loads dir p timestamp created) = true) :
    IsSafe dir (p.name timestamp) ∧ (IsComplete loads dir (p.name timestamp) ∨
      (dir.lookup (p.name timestamp ++ Suffix.manifest.text)).isSome = false) := by
  rw [archiveExpires, Bool.and_eq_true, Bool.not_eq_true', Bool.or_eq_false_iff,
    Bool.or_eq_false_iff, Bool.or_eq_false_iff, view_isUnsafe, Bool.or_eq_true, view_complete,
    Bool.not_eq_true', BackupSet.committed, view_present] at h
  exact ⟨h.1.1.1.1, h.2⟩

/-- An archive that a manifest names which is read stays while that manifest is there. -/
theorem archive_stays {series timestamp archive : Text} {created time n : ℕ}
    (htime : seconds timestamp = some created)
    (hread : ¬Unread dir (r.backups.name timestamp))
    (hrefers : Refers loads dir (r.backups.name timestamp) ((Request.archives series).name archive))
    (harchives : PrunesArchives loads dir r)
    (hexpires : archiveExpires loads dir r (view loads dir (Request.archives series) archive time) =
      true)
    (hmanifest : r.backups.name timestamp ++ Suffix.manifest.text ∉ (prune loads dir r).1.take n) :
    (Request.archives series).name archive ++ s.text ∉ (prune loads dir r).1.take n := by
  intro hgone
  have hsafe : IsSafe dir (r.backups.name timestamp) := not_not.mp (not_or.mp hread).1
  obtain ⟨members, hread, hname⟩ := manifestOf_of_refers hrefers hread
  have hpresent : (dir.lookup (r.backups.name timestamp ++ Suffix.manifest.text)).isSome = true := by
    rw [manifestOf, readManifest] at hread
    cases hlookup : dir.lookup (r.backups.name timestamp ++ Suffix.manifest.text) with
    | none =>
      rw [hlookup] at hread
      cases hread
    | some e => rfl
  have hstays : ¬Expires loads dir r timestamp created := by
    intro hgoes
    exact hmanifest (removed_of_archive_gone harchives hgone
      (unlinked_of_expires htime hgoes hpresent))
  have hmem := mem_remaining htime hstays hpresent
  have hmanifestOf := (@view_manifest loads dir r.backups timestamp created hsafe hpresent).trans hread
  have hreferenced : (referenced loads dir r).any
      (isName ((Request.archives series).name archive)) = true := by
    refine List.any_eq_true.mpr ⟨_, List.mem_map.mpr ⟨members, ?_, rfl⟩, hname⟩
    exact List.mem_filterMap.mpr ⟨_, hmem, hmanifestOf⟩
  have hnot := (not_referenced hexpires).1
  rw [view_name, hreferenced] at hnot
  cases hnot

/-- Names of backups are in the order of their times. -/
theorem created_lt {p : Pattern} {a b : Text} {c c' : ℕ} (ha : seconds a = some c)
    (hb : seconds b = some c') (h : p.name a < p.name b) : c < c' := by
  obtain h | ⟨-, h⟩ := lt_append rfl h
  · exact absurd h (lt_irrefl _)
  · have hlength : a.length = b.length := by
      rw [length_of_isTimestamp (isTimestamp_of_seconds ha),
        length_of_isTimestamp (isTimestamp_of_seconds hb)]
    obtain h | ⟨-, h⟩ := lt_append hlength h
    · exact seconds_lt_of_lt ha hb h
    · exact absurd h (lt_irrefl _)

/-- A complete backup that is not among the newest ones comes after that many newer ones. -/
theorem exists_newer {timestamp : Text} {created : ℕ} (htime : seconds timestamp = some created)
    (hcomplete : IsComplete loads dir (r.backups.name timestamp))
    (hfloor : r.backups.name timestamp ∉ floor loads dir r) :
    ∃ later : List Text, later.Nodup ∧ later.length = r.minimum.toNat ∧
      ∀ name ∈ later, name ∈ floor loads dir r ∧ IsComplete loads dir name ∧
        ∃ t c, name = r.backups.name t ∧ seconds t = some c ∧ created < c := by
  have hmem : view loads dir r.backups timestamp created ∈ newest loads dir r := by
    rw [newest, List.mem_insertionSort, List.mem_filter]
    exact ⟨mem_backupSets.mpr ⟨timestamp, created, htime, ⟨.manifest, hcomplete.present _⟩, rfl⟩,
      view_complete.mpr hcomplete⟩
  have hnames : r.backups.name timestamp ∉
      ((newest loads dir r).take r.minimum.toNat).map (·.name) := by
    intro h
    exact hfloor (List.mem_append_left _ h)
  have hsplit := List.take_append_drop r.minimum.toNat (newest loads dir r)
  have hdrop : view loads dir r.backups timestamp created ∈
      (newest loads dir r).drop r.minimum.toNat := by
    rw [← hsplit, List.mem_append] at hmem
    obtain h | h := hmem
    · exact absurd (List.mem_map.mpr ⟨_, h, view_name⟩) hnames
    · exact h
  refine ⟨((newest loads dir r).take r.minimum.toNat).map (·.name), ?_, ?_, ?_⟩
  · have hnodup : ((newest loads dir r).map (·.name)).Nodup := by
      rw [newest, ((List.perm_insertionSort nameGE _).map (·.name)).nodup_iff]
      exact (nodup_scan loads dir r.backups (listing dir)).sublist (List.filter_sublist.map _)
    exact hnodup.sublist ((List.take_sublist _ _).map _)
  · rw [List.length_map, List.length_take]
    have := List.length_pos_of_mem hdrop
    rw [List.length_drop] at this
    omega
  · intro name hname
    have hin : name ∈ floor loads dir r := List.mem_append_left _ hname
    obtain ⟨backup, hbackup, rfl⟩ := List.mem_map.mp hname
    have hbackup' := List.mem_of_mem_take hbackup
    rw [newest, List.mem_insertionSort, List.mem_filter] at hbackup'
    obtain ⟨t, c, ht, -, rfl⟩ := mem_backupSets.mp hbackup'.1
    rw [view_name] at hin ⊢
    refine ⟨hin, view_complete.mp hbackup'.2, t, c, rfl, ht, created_lt (p := r.backups) htime ht ?_⟩
    have hsorted : ((newest loads dir r).Pairwise nameGE) := List.pairwise_insertionSort nameGE _
    rw [← hsplit, List.pairwise_append] at hsorted
    have hle := hsorted.2.2 _ hbackup _ hdrop
    rw [nameGE, nameLE, view_name, view_name] at hle
    refine lt_of_le_of_ne hle fun heq => hnames ?_
    rw [heq]
    exact List.mem_map.mpr ⟨_, hbackup, view_name⟩

/-- The set just written is complete. -/
theorem keep_eq (h : Prunes loads dir r) : ∃ timestamp created,
    seconds timestamp = some created ∧ r.keep = r.backups.name timestamp := by
  have hkeep := h.keep
  rw [List.contains_iff_mem, List.mem_map] at hkeep
  obtain ⟨backup, hbackup, hname⟩ := hkeep
  rw [newest, List.mem_insertionSort, List.mem_filter] at hbackup
  obtain ⟨timestamp, created, htime, -, rfl⟩ := mem_backupSets.mp hbackup.1
  exact ⟨timestamp, created, htime, by rw [← hname, view_name]⟩

/-- A set of the floor stays. -/
theorem floor_stays {timestamp : Text} {created : ℕ} (htime : seconds timestamp = some created)
    (h : r.backups.name timestamp ∈ floor loads dir r) (s : Suffix) :
    r.backups.name timestamp ++ s.text ∉ (prune loads dir r).1 := by
  intro hgone
  rw [← List.take_length (l := (prune loads dir r).1)] at hgone
  obtain ⟨hgoes, -⟩ := goes_of_unlinked (mem_patterns.mpr (.inl rfl)) htime hgone
  obtain ⟨-, -, hexpires⟩ | ⟨series, -, heq, -⟩ := hgoes
  · exact hexpires.not_floor h
  · exact backups_ne_archives r series heq

/-- An archive goes that the manifest of a set names. -/
theorem not_pruneSafe_of_overlooks (h : Overlooks loads dir r) : ¬PruneSafe loads dir r := by
  intro hsafe
  obtain ⟨harchives, series, timestamp, created, archive, time, hseries, htime, htime', hunread,
    hrefers, hexpires, s, hs⟩ := h
  have hgone : (Request.archives series).name archive ++ s.text ∈ (prune loads dir r).1 := by
    rw [prune_of_archives harchives]
    exact List.mem_append_right _ (unlinked_of_archiveExpires hseries htime' hexpires hs)
  have hstays : r.backups.name timestamp ++ Suffix.manifest.text ∉ (prune loads dir r).1 := by
    intro h
    rw [← List.take_length (l := (prune loads dir r).1)] at h
    obtain ⟨hgoes, -⟩ := goes_of_unlinked (mem_patterns.mpr (.inl rfl)) htime h
    obtain ⟨-, -, hgoes⟩ | ⟨series, -, heq, -⟩ := hgoes
    · obtain hcomplete | hnone := hgoes.state
      · exact hcomplete.not_unread hunread
      · obtain ⟨content, -, hbytes, -⟩ := hrefers
        obtain ⟨entry, hlookup, -⟩ := Option.bind_eq_some_iff.mp hbytes
        rw [hlookup] at hnone
        cases hnone
    · exact backups_ne_archives r series heq
  rw [← List.take_length (l := (prune loads dir r).1)] at hgone hstays
  exact hsafe.archives series hseries _ timestamp created htime hstays archive time htime' hrefers s
    hgone

/-- Nothing is overlooked where every entry is a regular file of the user within the bound. -/
theorem not_overlooks_of_plain (h : ∀ e ∈ dir.entries, e.2.isSafe = true ∧
    ∀ content ∈ e.2.content, content.length ≤ 65536) : ¬Overlooks loads dir r := by
  have hplain : ∀ name e, dir.lookup name = some e → e.isSafe = true ∧
      ∀ content ∈ e.content, content.length ≤ 65536 :=
    fun name e hlookup => h _ (Table.lookup_eq_some_iff.mp hlookup)
  rintro ⟨-, series, timestamp, created, archive, time, -, -, -, hunread, -⟩
  obtain hbad | ⟨content, hbytes, hlong⟩ := hunread
  · exact hbad fun s e hlookup => (hplain _ e hlookup).1
  · obtain ⟨e, hlookup, hcontent⟩ := Option.bind_eq_some_iff.mp hbytes
    exact absurd ((hplain _ e hlookup).2 content hcontent) (not_le.mpr hlong)

/-- **Retention.**  `prune` keeps to its policy, at whatever unlink the process stops, except where an
archive goes that the manifest of a remaining set names.  That happens to a set whose manifest it has
not read: one that an unsafe member pins, and one whose manifest is longer than the bound, so that
it waits for an operator.  Of such a set the archive is collected as if nothing named it. -/
theorem pruneSafe_iff (loads : List ℕ → Except Unit (Option Members)) (dir : Directory)
    (r : Request) : PruneSafe loads dir r ↔ ¬Overlooks loads dir r := by
  constructor
  · intro hsafe h
    exact not_pruneSafe_of_overlooks h hsafe
  · intro hnot
    exact {
      kept := by
        intro s hgone
        have hprunes : Prunes loads dir r := by
          by_contra hnot
          rw [prune_of_not hnot] at hgone
          cases hgone
        obtain ⟨timestamp, created, htime, heq⟩ := keep_eq hprunes
        rw [heq] at hgone
        refine floor_stays htime ?_ s hgone
        rw [← heq]
        exact List.mem_append_right _ List.mem_cons_self
      newest := by
        intro timestamp created htime hmanifest s hgone
        rw [← List.take_length (l := (prune loads dir r).1)] at hgone
        obtain ⟨hgoes, -⟩ := goes_of_unlinked (mem_patterns.mpr (.inl rfl)) htime hgone
        obtain ⟨-, -, hexpires⟩ | ⟨series, -, heq, -⟩ := hgoes
        · have hcomplete : IsComplete loads dir (r.backups.name timestamp) :=
            hexpires.state.resolve_right (by rw [hmanifest]; exact Bool.true_eq_false.mp)
          obtain ⟨later, hnodup, hlength, hlater⟩ := exists_newer htime hcomplete hexpires.not_floor
          refine ⟨later, hnodup, hlength, fun name hname => ?_⟩
          obtain ⟨hfloor, hcomplete', t, c, rfl, ht, hlt⟩ := hlater name hname
          exact ⟨hcomplete', ⟨t, c, rfl, ht, hlt⟩, floor_stays ht hfloor⟩
        · exact absurd heq (backups_ne_archives r series)
      recent := by
        intro p hp timestamp created htime hrecent s hgone
        rw [← List.take_length (l := (prune loads dir r).1)] at hgone
        obtain ⟨hgoes, -⟩ := goes_of_unlinked hp htime hgone
        obtain ⟨-, -, hexpires⟩ | ⟨series, -, -, -, hexpires⟩ := hgoes
        · exact absurd hrecent (not_le.mpr hexpires.old)
        · have hold := (not_referenced hexpires).2
          rw [view_created] at hold
          exact absurd hrecent (not_le.mpr hold)
      classified := by
        intro x hx
        obtain ⟨sets, heq, hsets⟩ := @prune_eq loads dir r
        rw [heq] at hx
        obtain ⟨backup, hbackup, hname⟩ := List.mem_flatMap.mp hx
        obtain ⟨p, hp, timestamp, created, htime, rfl, hgoes⟩ := hsets backup hbackup
        obtain ⟨s, -, rfl⟩ := mem_removal.mp hname
        rw [view_name]
        refine ⟨p, hp, timestamp, created, s, htime, rfl, ?_⟩
        obtain ⟨rfl, -, hexpires⟩ | ⟨series, -, -, -, hexpires⟩ := hgoes
        · exact ⟨hexpires.safe, hexpires.state⟩
        · exact safe_of_archiveExpires hexpires
      archives := by
        intro series hseries n timestamp created htime hmanifest archive time htime' hrefers s hgone
        obtain ⟨hgoes, hs, -⟩ :=
          goes_of_unlinked (mem_patterns.mpr (.inr ⟨series, hseries, rfl⟩)) htime' hgone
        obtain ⟨heq, -⟩ | ⟨series', -, -, harchives, hexpires⟩ := hgoes
        · exact backups_ne_archives r series heq.symm
        · have hread : ¬Unread dir (r.backups.name timestamp) := fun hunread =>
            hnot ⟨harchives, series, timestamp, created, archive, time, hseries, htime, htime',
              hunread, hrefers, hexpires, s, hs⟩
          exact archive_stays htime hread hrefers harchives hexpires hmanifest hgone
      stops := by
        intro n p hp timestamp created htime hpresent hmanifest s hgone
        obtain ⟨-, -, hfirst⟩ := goes_of_unlinked hp htime hgone
        exact hmanifest (hfirst hpresent) }

end Safety

/-! ## An archive that is lost -/

/-- `json.loads` of the decoded bytes of a manifest. -/
def loadsManifest (raw : List ℕ) : Except Unit (Option Members) :=
  match (decodeUtf8 raw).bind JsonText.loads with
  | some (.obj members) => .ok (some members)
  | _ => .ok none

/-- A set of one name: its ciphertext and its manifest. -/
def trio (name : String) (ciphertext : Entry) (manifest : String) : List (Text × Entry) :=
  [(ofString name, ciphertext),
    (ofString (name ++ ".sha256"), .file true true []),
    (ofString (name ++ ".manifest"), .file true true (ofString manifest))]

/-- The set just written, an old set whose ciphertext is a link, and the archive of another day that
its manifest names. -/
def linked : Directory :=
  (trio "hosted-controller-20261115T030000Z.sqlite3.age" (.file true true [1])
      "\x7b\"name\": \"hosted-controller-20261115T030000Z.sqlite3.age\"\x7d" ++
    trio "hosted-controller-20260101T030000Z.sqlite3.age" .other
      "\x7b\"sourceKeys\": \"hosted-controller-source-keys-20251231T030000Z.tar.age\"\x7d" ++
    trio "hosted-controller-source-keys-20251231T030000Z.tar.age" (.file true true [2])
      "\x7b\"name\": \"hosted-controller-source-keys-20251231T030000Z.tar.age\"\x7d").foldl
    (fun dir e => dir.insert e.1 e.2) ∅

example : linked.keys.length = 9 := by
  simp (disch := rfl) only [linked, trio, ofString, String.toList_append, toList_of_eq_ofList]
  decide +kernel

/-- `prune_after_commit` of the set just written. -/
def nightly : Request where
  series := ofString "hosted-controller"
  keep := ofString "hosted-controller-20261115T030000Z.sqlite3.age"
  now := 63930398400
  keySeries := some (ofString "hosted-controller-source-keys")
  days := 14
  minimum := 3

theorem linked_unsafe :
    ¬IsSafe linked (nightly.backups.name (ofString "20260101T030000Z")) := by
  rw [← @bare_isUnsafe _ _ _ 0, Bool.not_eq_false]
  simp (disch := rfl) only [linked, trio, nightly, ofString, String.toList_append,
    toList_of_eq_ofList]
  decide +kernel

theorem linked_refers : Refers loadsManifest linked
    (nightly.backups.name (ofString "20260101T030000Z"))
    ((Request.archives (ofString "hosted-controller-source-keys")).name
      (ofString "20251231T030000Z")) := by
  rw [refers_iff]
  simp (disch := rfl) only [linked, trio, nightly, ofString, String.toList_append,
    toList_of_eq_ofList]
  decide +kernel

theorem linked_prunes : PrunesArchives loadsManifest linked nightly where
  arguments := by decide
  in_range := by decide +kernel
  readable := by
    simp (disch := rfl) only [linked, trio, nightly, ofString, String.toList_append,
    toList_of_eq_ofList]
    decide +kernel
  keep := by
    simp (disch := rfl) only [linked, trio, nightly, ofString, String.toList_append,
    toList_of_eq_ofList]
    decide +kernel
  series := by decide
  hashable := by
    simp (disch := rfl) only [linked, trio, nightly, ofString, String.toList_append,
    toList_of_eq_ofList]
    decide +kernel

example : (linked.lookup nightly.keep).isSome = true := by
  simp (disch := rfl) only [linked, trio, nightly, ofString, String.toList_append,
    toList_of_eq_ofList]
  decide +kernel

theorem linked_expires : archiveExpires loadsManifest linked nightly (view loadsManifest linked
    (Request.archives (ofString "hosted-controller-source-keys")) (ofString "20251231T030000Z")
      63902833200) = true := by
  simp (disch := rfl) only [linked, trio, nightly, ofString, String.toList_append,
    toList_of_eq_ofList]
  decide +kernel

theorem linked_archive : (linked.lookup ((Request.archives
    (ofString "hosted-controller-source-keys")).name (ofString "20251231T030000Z") ++
      Suffix.ciphertext.text)).isSome = true := by
  simp (disch := rfl) only [linked, trio, ofString, String.toList_append, toList_of_eq_ofList]
  decide +kernel

/-- The archive goes while the set that names it stays. -/
theorem archive_lost : ¬PruneSafe loadsManifest linked nightly :=
  not_pruneSafe_of_overlooks ⟨linked_prunes, ofString "hosted-controller-source-keys",
    ofString "20260101T030000Z", 63902919600, ofString "20251231T030000Z", 63902833200, by decide,
    by decide +kernel, by decide +kernel, .inl linked_unsafe, linked_refers, linked_expires, .ciphertext,
    linked_archive⟩

/-- The set just written, an old one, and the archive of another day that its manifest names. -/
def ordinary : Directory :=
  (trio "hosted-controller-20261115T030000Z.sqlite3.age" (.file true true [1])
      "\x7b\"name\": \"hosted-controller-20261115T030000Z.sqlite3.age\"\x7d" ++
    trio "hosted-controller-20260101T030000Z.sqlite3.age" (.file true true [2])
      ("\x7b\"name\": \"hosted-controller-20260101T030000Z.sqlite3.age\", " ++
        "\"sourceKeys\": \"hosted-controller-source-keys-20251231T030000Z.tar.age\"\x7d") ++
    trio "hosted-controller-source-keys-20251231T030000Z.tar.age" (.file true true [3])
      "\x7b\"name\": \"hosted-controller-source-keys-20251231T030000Z.tar.age\"\x7d").foldl
    (fun dir e => dir.insert e.1 e.2) ∅

/-- The same call with a floor of one set. -/
def lenient : Request := { nightly with minimum := 1 }

theorem ordinary_pruned : (prune loadsManifest ordinary lenient).1.length = 6 ∧
    (prune loadsManifest ordinary lenient).2 = .ok 2 := by
  simp (disch := rfl) only [ordinary, trio, lenient, nightly, ofString, String.toList_append,
    toList_of_eq_ofList]
  decide +kernel

/-- The old set goes and then its archive, and the policy is kept. -/
theorem pruneSafe_ordinary : PruneSafe loadsManifest ordinary lenient ∧
    (prune loadsManifest ordinary lenient).2 = .ok 2 := by
  refine ⟨(pruneSafe_iff loadsManifest ordinary lenient).mpr (not_overlooks_of_plain ?_),
    ordinary_pruned.2⟩
  simp (disch := rfl) only [ordinary, trio, ofString, String.toList_append, toList_of_eq_ofList]
  decide +kernel

end BackupRetention
end OpenstackPlatform
