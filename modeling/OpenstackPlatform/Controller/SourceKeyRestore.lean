import OpenstackPlatform.Controller.SourceKeyBackup

/-!
# Archives of deploy keys that are restored

What the reader makes of an archive: of one that the writer left, and of any other.

* `stageAll_map`: members that the writer added are staged one by one.
* `ProgressSound`: what holds while any archive is read.
* `staged_or_removed`: any archive stages complete pairs or nothing.
* `sourceKeys_restored`: when a written archive is restored, and what is staged of it.
* `archive_restored`: the main result.
-/

namespace OpenstackPlatform

open Library Validation

namespace Controller

namespace SourceKeyBackup

/-! ## What the reader makes of it -/

/-- The time is one that the reader takes. -/
def InRange (f : KeyFile) : Prop := 0 ≤ f.mtimeNs ∧ f.mtimeNs ≤ 2 ^ 63 - 1

/-- The names of key files as texts. -/
def keyTexts : List Text := keyNames.map Text.ofString

section Reading

variable {w : World} {allowed : List Text} {p p' : Progress}

/-- A file of an application that is allowed, with a path that can be split again. -/
structure Fine (allowed : List Text) (e : (Text × Text) × KeyFile) : Prop where
  allowed : e.1.1 ∈ allowed
  name : 47 ∉ e.1.1
  key : e.1.2 ∈ keyTexts
  writable : Writable e.2

/-- The progress after a file. -/
def advance (p : Progress) (e : (Text × Text) × KeyFile) : Progress :=
  ⟨p.seen ++ [e.1], p.total + e.2.content.length,
    p.staging.insert e.1 ⟨e.2.content, e.2.mtimeNs⟩⟩

theorem splitOn_path {name key : Text} (hname : 47 ∉ name) (hkey : 47 ∉ key) :
    (name ++ 47 :: key).splitOn 47 = [name, key] := by
  have h := List.splitOn_intercalate 47
    (List.forall_mem_cons.mpr ⟨hname, List.forall_mem_cons.mpr ⟨hkey, fun _ h => absurd h
      List.not_mem_nil⟩⟩ : ∀ l ∈ [name, key], 47 ∉ l) (List.cons_ne_nil _ _)
  simpa [List.intercalate] using h

theorem notMem_of_mem_keyTexts : ∀ key ∈ keyTexts, 47 ∉ key := by decide

theorem timestamp_memberOf {path : Text × Text} {f : KeyFile} (hf : Writable f) :
    timestamp w (memberOf w path f) = .ok f.mtimeNs := by
  have hread : Text.parseInt w.numerals (JsonText.dumpInt f.mtimeNs) = some f.mtimeNs :=
    Text.parseInt_dumpInt hf.2.2
  simp only [timestamp, memberOf, hread]

theorem payloadOf_memberOf (path : Text × Text) (f : KeyFile) :
    payloadOf (memberOf w path f) = .ok f.content := by
  have hsize : require ((f.content.length : Int) == f.content.length)
      (.backup "deploy-key archive entry is truncated") = .ok () :=
    require_ok_iff.mpr (beq_self_eq_true _)
  exact Checks.bind_ok_iff.mpr ⟨some f.content, rfl, Checks.bind_ok_iff.mpr ⟨(), hsize, rfl⟩⟩

/-- A member that the writer added is staged exactly when its time is in range. -/
theorem stageMember_memberOf {e : (Text × Text) × KeyFile} (he : Fine allowed e)
    (hseen : e.1 ∉ p.seen) (htotal : p.total + e.2.content.length ≤ maxArchiveBytes) :
    stageMember w allowed p (memberOf w e.1 e.2) = .ok p' ↔ InRange e.2 ∧ p' = advance p e := by
  obtain ⟨⟨name, key⟩, f⟩ := e
  have hsplit : (memberOf w (name, key) f).name.splitOn 47 = [name, key] :=
    splitOn_path he.name (notMem_of_mem_keyTexts key he.key)
  have hallowed : name ∈ allowed := he.allowed
  have hkey : key ∈ keyNames.map Text.ofString := he.key
  have hpos : 0 < f.content.length := he.writable.1
  have hmax : f.content.length ≤ maxKeyBytes := he.writable.2.1
  have hsize : (0 : Int) < f.content.length ∧ (f.content.length : Int) ≤ maxKeyBytes := by omega
  have hentry : (allowed.contains name && (keyNames.map Text.ofString).contains key && true &&
      decide ((0 : Int) < f.content.length ∧ (f.content.length : Int) ≤ maxKeyBytes)) = true := by
    rw [List.contains_iff_mem.mpr hallowed, List.contains_iff_mem.mpr hkey, decide_eq_true hsize]
    rfl
  have hnew : (!p.seen.contains (name, key)) = true := by
    simpa using hseen
  rw [stageMember, hsplit]
  constructor
  · intro h
    obtain ⟨_, -, h⟩ := Checks.bind_ok_iff.mp h
    obtain ⟨_, -, h⟩ := Checks.bind_ok_iff.mp h
    obtain ⟨_, -, h⟩ := Checks.bind_ok_iff.mp h
    obtain ⟨value, hvalue, h⟩ := Checks.bind_ok_iff.mp h
    obtain ⟨mtime, htime, h⟩ := Checks.bind_ok_iff.mp h
    obtain ⟨_, hrange, h⟩ := Checks.bind_ok_iff.mp h
    rw [payloadOf_memberOf] at hvalue
    rw [timestamp_memberOf he.writable] at htime
    cases hvalue
    cases htime
    rw [require_ok_iff, decide_eq_true_eq] at hrange
    exact ⟨hrange, (Except.ok.inj h).symm⟩
  · rintro ⟨hrange, rfl⟩
    refine Checks.bind_ok_iff.mpr ⟨(), require_ok_iff.mpr hentry, ?_⟩
    refine Checks.bind_ok_iff.mpr ⟨(), require_ok_iff.mpr hnew, ?_⟩
    refine Checks.bind_ok_iff.mpr ⟨(), require_ok_iff.mpr (decide_eq_true htotal), ?_⟩
    refine Checks.bind_ok_iff.mpr ⟨f.content, payloadOf_memberOf (name, key) f, ?_⟩
    refine Checks.bind_ok_iff.mpr ⟨f.mtimeNs, timestamp_memberOf he.writable, ?_⟩
    exact Checks.bind_ok_iff.mpr ⟨(), require_ok_iff.mpr (decide_eq_true_iff.mpr hrange), rfl⟩

/-- The members that the writer added are staged exactly when all times are in range. -/
theorem stageAll_map {entries : List ((Text × Text) × KeyFile)}
    (hfine : ∀ e ∈ entries, Fine allowed e) (hnodup : (entries.map Prod.fst).Nodup)
    (hseen : ∀ e ∈ entries, e.1 ∉ p.seen)
    (htotal : p.total + contentSize entries ≤ maxArchiveBytes) :
    stageAll w allowed p (entries.map fun e => memberOf w e.1 e.2) = .ok p' ↔
      (∀ e ∈ entries, InRange e.2) ∧ p' = entries.foldl advance p := by
  induction entries generalizing p with
  | nil =>
    constructor
    · intro h
      exact ⟨fun e he => absurd he List.not_mem_nil, (Except.ok.inj h).symm⟩
    · rintro ⟨-, rfl⟩
      rfl
  | cons e entries ih =>
    obtain ⟨he, hfine⟩ := List.forall_mem_cons.mp hfine
    obtain ⟨hnew, hseen⟩ := List.forall_mem_cons.mp hseen
    rw [List.map_cons, List.nodup_cons] at hnodup
    have hsum : contentSize (e :: entries) = e.2.content.length + contentSize entries := rfl
    have hfirst : ∀ {q}, stageMember w allowed p (memberOf w e.1 e.2) = .ok q ↔
        InRange e.2 ∧ q = advance p e :=
      stageMember_memberOf he hnew (by omega)
    have hrest := ih (p := advance p e) hfine hnodup.2
      (by
        intro d hd hm
        obtain hm | hm := List.mem_append.mp hm
        · exact hseen d hd hm
        · exact hnodup.1 (List.mem_map.mpr ⟨d, hd, List.mem_singleton.mp hm⟩))
      (by
        show p.total + e.2.content.length + contentSize entries ≤ _
        omega)
    rw [List.map_cons, stageAll, List.foldlM_cons, Checks.bind_ok_iff, List.forall_mem_cons,
      List.foldl_cons]
    constructor
    · rintro ⟨q, hq, h⟩
      obtain ⟨hrange, rfl⟩ := hfirst.mp hq
      obtain ⟨hranges, hp⟩ := hrest.mp h
      exact ⟨⟨hrange, hranges⟩, hp⟩
    · rintro ⟨⟨hrange, hranges⟩, hp⟩
      exact ⟨_, hfirst.mpr ⟨hrange, rfl⟩, hrest.mpr ⟨hranges, hp⟩⟩

theorem seen_foldl_advance (entries : List ((Text × Text) × KeyFile)) (p : Progress) :
    (entries.foldl advance p).seen = p.seen ++ entries.map Prod.fst := by
  induction entries generalizing p with
  | nil => exact (List.append_nil _).symm
  | cons e entries ih =>
    rw [List.foldl_cons, ih, List.map_cons]
    exact List.append_assoc _ _ _

/-- What is staged of files under different paths. -/
theorem lookup_foldl_advance {entries : List ((Text × Text) × KeyFile)}
    (hnodup : (entries.map Prod.fst).Nodup) {path : Text × Text} {st : Staged} :
    (entries.foldl advance p).staging.lookup path = some st ↔
      (∃ f, (path, f) ∈ entries ∧ st = ⟨f.content, f.mtimeNs⟩) ∨
        path ∉ entries.map Prod.fst ∧ p.staging.lookup path = some st := by
  induction entries generalizing p with
  | nil => simp
  | cons e entries ih =>
    obtain ⟨path', g⟩ := e
    rw [List.map_cons, List.nodup_cons] at hnodup
    have hlookup : (advance p (path', g)).staging.lookup path =
        if path = path' then some ⟨g.content, g.mtimeNs⟩ else p.staging.lookup path :=
      Table.lookup_insert_ite ..
    rw [List.foldl_cons, ih hnodup.2, hlookup, List.map_cons]
    simp only [List.mem_cons, Prod.mk.injEq, not_or]
    by_cases hpath : path = path'
    · subst hpath
      rw [if_pos rfl]
      constructor
      · rintro (⟨f, hf, rfl⟩ | ⟨-, hst⟩)
        · exact .inl ⟨f, .inr hf, rfl⟩
        · exact .inl ⟨g, .inl ⟨rfl, rfl⟩, (Option.some.inj hst).symm⟩
      · rintro (⟨f, ⟨-, rfl⟩ | hf, rfl⟩ | ⟨⟨hne, -⟩, -⟩)
        · exact .inr ⟨hnodup.1, rfl⟩
        · exact .inl ⟨f, hf, rfl⟩
        · exact absurd rfl hne
    · rw [if_neg hpath]
      constructor
      · rintro (⟨f, hf, rfl⟩ | ⟨hnew, hst⟩)
        · exact .inl ⟨f, .inr hf, rfl⟩
        · exact .inr ⟨⟨hpath, hnew⟩, hst⟩
      · rintro (⟨f, ⟨heq, -⟩ | hf, rfl⟩ | ⟨⟨-, hnew⟩, hst⟩)
        · exact absurd heq hpath
        · exact .inl ⟨f, hf, rfl⟩
        · exact .inr ⟨hnew, hst⟩

theorem isComplete_iff {seen : List (Text × Text)} :
    isComplete seen = true ↔ ∀ path ∈ seen, ∀ key ∈ keyTexts, (path.1, key) ∈ seen := by
  simp only [isComplete, keyTexts, List.all_eq_true, List.contains_iff_mem, List.forall_mem_map]

end Reading

/-! ## Any archive -/

/-- The bytes of a staged file. -/
def stagedSize (_ : Text × Text) (st : Staged) : Nat := st.content.length

/-- A staged file has a path that is allowed, and its bytes and its time are within the bounds. -/
structure StagedFine (allowed : List Text) (path : Text × Text) (st : Staged) : Prop where
  allowed : path.1 ∈ allowed
  key : path.2 ∈ keyTexts
  size : 0 < st.content.length ∧ st.content.length ≤ maxKeyBytes
  time : 0 ≤ st.mtimeNs ∧ st.mtimeNs ≤ 2 ^ 63 - 1

/-- What holds while an archive is read. -/
structure ProgressSound (allowed : List Text) (p : Progress) : Prop where
  seen : ∀ path, path ∈ p.seen ↔ (p.staging.lookup path).isSome = true
  fine : ∀ path st, p.staging.lookup path = some st → StagedFine allowed path st
  total : (p.staging.sumOver stagedSize : Int) = p.total
  bound : p.total ≤ maxArchiveBytes

section AnyArchive

variable {w : World} {allowed : List Text} {p p' : Progress}

/-- A member, whatever it is. -/
theorem ProgressSound.stageMember (h : ProgressSound allowed p) {m : Member}
    (hm : stageMember w allowed p m = .ok p') : ProgressSound allowed p' := by
  rw [SourceKeyBackup.stageMember] at hm
  split at hm
  · rename_i name key hsplit
    obtain ⟨_, hentry, hm⟩ := Checks.bind_ok_iff.mp hm
    obtain ⟨_, hnew, hm⟩ := Checks.bind_ok_iff.mp hm
    obtain ⟨_, htotal, hm⟩ := Checks.bind_ok_iff.mp hm
    obtain ⟨value, hvalue, hm⟩ := Checks.bind_ok_iff.mp hm
    obtain ⟨mtime, -, hm⟩ := Checks.bind_ok_iff.mp hm
    obtain ⟨_, htime, hm⟩ := Checks.bind_ok_iff.mp hm
    cases hm
    simp only [require_ok_iff, Bool.and_eq_true, decide_eq_true_eq, List.contains_iff_mem,
      Bool.not_eq_true', ← Bool.not_eq_true] at hentry hnew htotal htime
    obtain ⟨⟨⟨hallowed, hkey⟩, -⟩, hpos, hmax⟩ := hentry
    have hlength : (value.length : Int) = m.size := by
      obtain ⟨payload, -, hvalue⟩ := Checks.bind_ok_iff.mp hvalue
      cases payload with
      | none => cases hvalue
      | some payload =>
        obtain ⟨_, hsize, hvalue⟩ := Checks.bind_ok_iff.mp hvalue
        cases hvalue
        exact beq_iff_eq.mp (require_ok_iff.mp hsize)
    have hnone : p.staging.lookup (name, key) = none := by
      rw [← Option.not_isSome_iff_eq_none, ← h.seen]
      exact hnew
    constructor
    · intro path
      rw [List.mem_append, List.mem_singleton, h.seen, Table.lookup_insert_ite]
      split
      · rename_i heq
        simp [heq]
      · rename_i hne
        simp [hne]
    · intro path st hst
      rw [Table.lookup_insert_ite] at hst
      split at hst
      · rename_i heq
        cases hst
        subst heq
        refine ⟨hallowed, hkey, ?_, htime⟩
        constructor
        · show 0 < value.length
          omega
        · show value.length ≤ maxKeyBytes
          omega
      · exact h.fine path st hst
    · have htotal := h.total
      rw [Table.sumOver_insert, Table.sumOver_erase_of_lookup_eq_none hnone, stagedSize]
      show ((value.length + p.staging.sumOver stagedSize : Nat) : Int) = p.total + m.size
      omega
    · exact htotal
  · cases hm

theorem ProgressSound.stageAll {members : List Member} (h : ProgressSound allowed p)
    (hm : stageAll w allowed p members = .ok p') : ProgressSound allowed p' := by
  induction members generalizing p with
  | nil =>
    cases hm
    exact h
  | cons m members ih =>
    rw [SourceKeyBackup.stageAll, List.foldlM_cons] at hm
    obtain ⟨q, hq, hm⟩ := Checks.bind_ok_iff.mp hm
    exact ih (h.stageMember hq) hm

theorem progressSound_initial (allowed : List Text) : ProgressSound allowed ⟨[], 0, ∅⟩ where
  seen path := by simp
  fine path st hst := by simp at hst
  total := rfl
  bound := by decide

end AnyArchive

/-- The staging directory holds complete pairs of applications in the database. -/
structure CompletePairs (db : Snapshot) (staging : Staging) : Prop where
  application : ∀ path st, staging.lookup path = some st →
    ∃ app ∈ db.applications, path.1 = Text.ofString app.slug ∧ isSlug app.slug = true
  pair : ∀ path st, staging.lookup path = some st →
    path.2 ∈ keyTexts ∧ ∀ key ∈ keyTexts, (staging.lookup (path.1, key)).isSome = true
  file : ∀ path st, staging.lookup path = some st →
    0 < st.content.length ∧ st.content.length ≤ maxKeyBytes ∧ 0 ≤ st.mtimeNs ∧
      st.mtimeNs ≤ 2 ^ 63 - 1
  size : staging.sumOver stagedSize ≤ maxArchiveBytes

section Restore

variable {w : World} {db : Snapshot} {root : Option Root} {place : Place}

/-- The checks before the staging directory is made pass. -/
structure Ready (w : World) (db : Snapshot) (place : Place) : Prop where
  parent : checkDirectory w place.parent = .ok ()
  destination : ∀ m ∈ place.destination, checkDirectory w m = .ok ()
  slugs : ∀ app ∈ db.applications, isSlug app.slug = true

theorem prepareChecks_ok_iff {archive : ArchiveFile} {allowed : List Text} :
    prepareChecks w db archive place = .ok allowed ↔ validateArchive w archive = .ok () ∧
      Ready w db place ∧ allowed = (db.applications.map Application.slug).map Text.ofString := by
  constructor
  · intro h
    obtain ⟨_, hvalid, h⟩ := Checks.bind_ok_iff.mp h
    obtain ⟨_, hparent, h⟩ := Checks.bind_ok_iff.mp h
    obtain ⟨_, hdestination, h⟩ := Checks.bind_ok_iff.mp h
    obtain ⟨slugs, hslugs, h⟩ := Checks.bind_ok_iff.mp h
    obtain ⟨rfl, hall⟩ := mapM_checkedSlug hslugs
    refine ⟨hvalid, ⟨hparent, fun m hm => ?_, fun app happ => ?_⟩, (Except.ok.inj h).symm⟩
    · exact Checks.forM_ok_iff.mp hdestination m (Option.mem_toList.mpr hm)
    · exact hall _ (List.mem_map_of_mem happ)
  · rintro ⟨hvalid, hready, rfl⟩
    refine Checks.bind_ok_iff.mpr ⟨(), hvalid, Checks.bind_ok_iff.mpr ⟨(), hready.parent, ?_⟩⟩
    refine Checks.bind_ok_iff.mpr ⟨(), ?_, ?_⟩
    · exact Checks.forM_ok_iff.mpr fun m hm => hready.destination m (Option.mem_toList.mp hm)
    · refine Checks.bind_ok_iff.mpr ⟨_, mapM_checkedSlug_of ?_, rfl⟩
      intro s hs
      obtain ⟨app, happ, rfl⟩ := List.mem_map.mp hs
      exact hready.slugs app happ

/-- What is returned and left. -/
theorem prepare_cases (w : World) (db : Snapshot) (archive : ArchiveFile) (place : Place) :
    (∃ allowed staging, prepareChecks w db archive place = .ok allowed ∧
        stage w allowed archive = .ok staging ∧
        prepareSourceKeyRestore w db archive place = (.ok (), some staging)) ∨
      (∀ allowed staging, prepareChecks w db archive place = .ok allowed →
        stage w allowed archive ≠ .ok staging) ∧
      ∃ e, prepareSourceKeyRestore w db archive place = (.error e, none) := by
  cases hchecks : prepareChecks w db archive place with
  | error e =>
    refine .inr ⟨fun _ _ h => (nomatch h), e, ?_⟩
    rw [prepareSourceKeyRestore, hchecks]
  | ok allowed =>
    cases hstage : stage w allowed archive with
    | ok staging =>
      refine .inl ⟨allowed, staging, rfl, hstage, ?_⟩
      rw [prepareSourceKeyRestore, hchecks]
      simp only [hstage]
    | error e =>
      refine .inr ⟨?_, ?_⟩
      · intro allowed' staging hallowed h
        cases hallowed
        rw [hstage] at h
        cases h
      · rw [prepareSourceKeyRestore, hchecks]
        cases e <;> exact ⟨_, by simp only [hstage]; rfl⟩

/-- **Any archive** stages complete pairs of applications in the database, or nothing. -/
theorem staged_or_removed (w : World) (db : Snapshot) (archive : ArchiveFile) (place : Place) :
    (∃ staging, prepareSourceKeyRestore w db archive place = (.ok (), some staging) ∧
        CompletePairs db staging) ∨
      ∃ e, prepareSourceKeyRestore w db archive place = (.error e, none) := by
  obtain ⟨allowed, staging, hchecks, hstage, hprepare⟩ | ⟨-, hfailed⟩ :=
    prepare_cases w db archive place
  · refine .inl ⟨staging, hprepare, ?_⟩
    obtain ⟨-, hready, rfl⟩ := prepareChecks_ok_iff.mp hchecks
    obtain ⟨p, hp, hstage⟩ := Checks.bind_ok_iff.mp hstage
    obtain ⟨_, -, hstage⟩ := Checks.bind_ok_iff.mp hstage
    obtain ⟨_, hcomplete, hstage⟩ := Checks.bind_ok_iff.mp hstage
    cases hstage
    have hsound := (progressSound_initial _).stageAll hp
    rw [require_ok_iff, isComplete_iff] at hcomplete
    constructor
    · intro path st hst
      obtain ⟨s, hs, hname⟩ := List.mem_map.mp (hsound.fine path st hst).allowed
      obtain ⟨app, happ, rfl⟩ := List.mem_map.mp hs
      exact ⟨app, happ, hname.symm, hready.slugs app happ⟩
    · intro path st hst
      refine ⟨(hsound.fine path st hst).key, fun key hkey => ?_⟩
      rw [← hsound.seen]
      refine hcomplete path ?_ key hkey
      rw [hsound.seen, hst]
      rfl
    · intro path st hst
      have hfine := hsound.fine path st hst
      exact ⟨hfine.size.1, hfine.size.2, hfine.time⟩
    · have htotal := hsound.total
      have hbound := hsound.bound
      omega
  · exact .inr hfailed

theorem notMem_slash_of_isSlug {s : String} (h : isSlug s = true) : 47 ∉ Text.ofString s := by
  rw [isSlug] at h
  split at h
  · cases h
  · rename_i c cs hs
    simp only [Bool.and_eq_true, List.all_eq_true] at h
    rw [Text.ofString, hs, List.mem_map]
    rintro ⟨d, hd, hslash⟩
    obtain rfl : d = '/' := Char.toNat_inj.mp hslash
    obtain rfl | hd := List.mem_cons.mp hd
    · cases h.1.1.1.1.1
    · cases h.1.1.2 _ hd

variable {members : List Member}

theorem fine_of_mem_files (h : WrittenFrom w db root members)
    (hslugs : ∀ app ∈ db.applications, isSlug app.slug = true) :
    ∀ e ∈ files db root,
      Fine ((db.applications.map Application.slug).map Text.ofString) e := by
  rintro ⟨path, f⟩ he
  obtain ⟨app, happ, -, r, d, key, -, -, hkey, -, rfl⟩ := mem_files_iff.mp he
  refine ⟨?_, ?_, List.mem_map_of_mem hkey, h.writable _ he⟩
  · exact List.mem_map_of_mem (List.mem_map_of_mem happ)
  · exact notMem_slash_of_isSlug (hslugs app happ)

/-- The pairs of the files are complete. -/
theorem isComplete_files (h : WrittenFrom w db root members) :
    isComplete ((files db root).map Prod.fst) = true := by
  rw [isComplete_iff]
  intro path hpath text htext
  obtain ⟨⟨_, f⟩, hf, rfl⟩ := List.mem_map.mp hpath
  obtain ⟨app, happ, hlive, r, d, key, rfl, hentry, -, -, rfl⟩ := mem_files_iff.mp hf
  obtain ⟨key', hkey', rfl⟩ := List.mem_map.mp htext
  obtain hnone | ⟨d', hentry', hboth⟩ :=
    h.paired r rfl app.slug (mem_liveSlugs_iff.mpr ⟨app, happ, hlive, rfl⟩)
  · rw [hentry] at hnone
    cases hnone
  · obtain ⟨g, hg⟩ := hboth key' hkey'
    refine List.mem_map.mpr ⟨((Text.ofString app.slug, Text.ofString key'), g), ?_, rfl⟩
    exact mem_files_iff.mpr ⟨app, happ, hlive, r, d', key', rfl, hentry', hkey', hg, rfl⟩

/-- When a written archive is staged, and what is staged of it. -/
theorem stage_written (h : WrittenFrom w db root members)
    (hslugs : ∀ app ∈ db.applications, isSlug app.slug = true) {staging : Staging} :
    stage w ((db.applications.map Application.slug).map Text.ofString) (written w members) =
        .ok staging ↔
      (∀ e ∈ files db root, InRange e.2) ∧
        staging = ((files db root).foldl advance ⟨[], 0, ∅⟩).staging := by
  have hall : ∀ {p}, stageAll w ((db.applications.map Application.slug).map Text.ofString)
      ⟨[], 0, ∅⟩ (written w members).members = .ok p ↔
        (∀ e ∈ files db root, InRange e.2) ∧ p = (files db root).foldl advance ⟨[], 0, ∅⟩ := by
    intro p
    have htotal : (0 : Int) + contentSize (files db root) ≤ maxArchiveBytes := by
      have := h.total
      omega
    rw [written, h.added]
    exact stageAll_map (fine_of_mem_files h hslugs) (nodup_files db root)
      (fun e _ => List.not_mem_nil) htotal
  constructor
  · intro hstage
    obtain ⟨p, hp, hstage⟩ := Checks.bind_ok_iff.mp hstage
    obtain ⟨_, -, hstage⟩ := Checks.bind_ok_iff.mp hstage
    obtain ⟨_, -, hstage⟩ := Checks.bind_ok_iff.mp hstage
    obtain ⟨hrange, rfl⟩ := hall.mp hp
    exact ⟨hrange, (Except.ok.inj hstage).symm⟩
  · rintro ⟨hrange, rfl⟩
    refine Checks.bind_ok_iff.mpr ⟨_, hall.mpr ⟨hrange, rfl⟩, ?_⟩
    refine Checks.bind_ok_iff.mpr ⟨(), rfl, Checks.bind_ok_iff.mpr ⟨(), ?_, rfl⟩⟩
    rw [require_ok_iff, seen_foldl_advance]
    exact isComplete_files h

/-- **A written archive is restored** exactly if the checks of the reader pass, also for the slugs
of deleted applications, and all times are in range; then it is staged as it was. -/
theorem sourceKeys_restored (h : writeSourceKeyArchive w db root = .ok members) (place : Place) :
    ((prepareSourceKeyRestore w db (written w members) place).1 = .ok () ↔
        Ready w db place ∧ ∀ path f, Archived db root path f → InRange f) ∧
      (∀ staging, (prepareSourceKeyRestore w db (written w members) place).2 = some staging →
        ∀ path st, staging.lookup path = some st ↔
          ∃ f, Archived db root path f ∧ st = ⟨f.content, f.mtimeNs⟩) ∧
      ∀ app ∈ db.applications, app.applicationId ∉ db.tombstones → ∀ r, root = some r →
        (r.entry app.slug).isSome = true → ∀ key ∈ keyNames,
          ∃ f, Archived db root (Text.ofString app.slug, Text.ofString key) f := by
  have hwritten := write_ok h
  have hvalid : validateArchive w (written w members) = .ok () := by
    refine Checks.bind_ok_iff.mpr ⟨(), rfl, ?_⟩
    rw [require_ok_iff, written, decide_eq_true hwritten.size]
    simp
  refine ⟨?_, ?_, ?_⟩
  · constructor
    · intro hok
      obtain ⟨allowed, staging, hchecks, hstage, -⟩ | ⟨-, e, he⟩ :=
        prepare_cases w db (written w members) place
      · obtain ⟨-, hready, rfl⟩ := prepareChecks_ok_iff.mp hchecks
        have hrange := ((stage_written hwritten hready.slugs).mp hstage).1
        exact ⟨hready, fun path f hf => hrange (path, f) (mem_files_iff.mpr hf)⟩
      · rw [he] at hok
        cases hok
    · rintro ⟨hready, hrange⟩
      have hchecks := prepareChecks_ok_iff.mpr ⟨hvalid, hready, rfl⟩
      have hstage := (stage_written hwritten hready.slugs).mpr
        ⟨fun e he => hrange e.1 e.2 (mem_files_iff.mp he), rfl⟩
      obtain ⟨_, _, -, -, hprepare⟩ | ⟨hnever, -⟩ :=
        prepare_cases w db (written w members) place
      · rw [hprepare]
      · exact absurd hstage (hnever _ _ hchecks)
  · intro staging hstaging path st
    obtain ⟨allowed, staging', hchecks, hstage, hprepare⟩ | ⟨-, e, he⟩ :=
      prepare_cases w db (written w members) place
    · rw [hprepare] at hstaging
      cases hstaging
      obtain ⟨-, hready, rfl⟩ := prepareChecks_ok_iff.mp hchecks
      obtain ⟨-, rfl⟩ := (stage_written hwritten hready.slugs).mp hstage
      rw [lookup_foldl_advance (nodup_files db root)]
      simp [mem_files_iff]
    · rw [he] at hstaging
      cases hstaging
  · intro app happ hlive r hr hsome key hkey
    obtain hnone | ⟨d, hentry, hboth⟩ :=
      hwritten.paired r hr app.slug (mem_liveSlugs_iff.mpr ⟨app, happ, hlive, rfl⟩)
    · rw [hnone] at hsome
      cases hsome
    · obtain ⟨f, hf⟩ := hboth key hkey
      exact ⟨f, app, happ, hlive, r, d, key, hr, hentry, hkey, hf, rfl⟩

/-- **Archives of deploy keys**: a written archive is restored as it was, if all its times are in
range and the checks of the reader pass; any archive stages complete pairs or nothing. -/
theorem archive_restored {members : List Member}
    (h : writeSourceKeyArchive w db root = .ok members) :
    (∀ place, (prepareSourceKeyRestore w db (written w members) place).1 = .ok () ↔
        Ready w db place ∧ ∀ path f, Archived db root path f → InRange f) ∧
      (∀ place staging,
        (prepareSourceKeyRestore w db (written w members) place).2 = some staging →
          ∀ path st, staging.lookup path = some st ↔
            ∃ f, Archived db root path f ∧ st = ⟨f.content, f.mtimeNs⟩) ∧
      (∀ app ∈ db.applications, app.applicationId ∉ db.tombstones → ∀ r, root = some r →
        (r.entry app.slug).isSome = true → ∀ key ∈ keyNames,
          ∃ f, Archived db root (Text.ofString app.slug, Text.ofString key) f) ∧
      ∀ (db' : Snapshot) archive place,
        (∃ staging, prepareSourceKeyRestore w db' archive place = (.ok (), some staging) ∧
            CompletePairs db' staging) ∨
          ∃ e, prepareSourceKeyRestore w db' archive place = (.error e, none) :=
  ⟨fun place => (sourceKeys_restored h place).1, fun place => (sourceKeys_restored h place).2.1,
    (sourceKeys_restored h ⟨⟨false, 0, 0⟩, none⟩).2.2, staged_or_removed w⟩

end Restore

/-- The user 1000, with the ASCII digits and no rounding. -/
def sampleWorld : World where
  euid := 1000
  numerals := ⟨fun c => if JsonText.isDigit c then some (c - 48) else none, fun _ h => if_pos h⟩
  throughFloat n := n
  archiveSize members := 2048 * members.length

/-- A live application and a deleted one. -/
def sampleSnapshot : Snapshot where
  applications := [⟨"1", "app"⟩, ⟨"2", "old"⟩]
  tombstones := ["2"]
  unique := by decide

def sampleKey : KeyFile := ⟨.regular, true, 1000, 0o600, 1, 1700000000000000001, [7]⟩

def samplePrivate : Metadata := ⟨true, 1000, 0o700⟩

/-- Both applications have a pair. -/
def sampleRoot : Root where
  metadata := samplePrivate
  entry _ := some (.directory ⟨1000, 0o700, fun _ => sampleKey⟩)

theorem archive_restored_sample : ∃ members,
    writeSourceKeyArchive sampleWorld sampleSnapshot (some sampleRoot) = .ok members ∧
      (prepareSourceKeyRestore sampleWorld sampleSnapshot (written sampleWorld members)
        ⟨samplePrivate, none⟩).1 = .ok () := by
  have hok : (writeSourceKeyArchive sampleWorld sampleSnapshot (some sampleRoot)).isOk = true := by
    decide +kernel
  cases hwrite : writeSourceKeyArchive sampleWorld sampleSnapshot (some sampleRoot) with
  | error e =>
    rw [hwrite] at hok
    cases hok
  | ok members =>
    refine ⟨members, rfl, ((archive_restored hwrite).1 ⟨samplePrivate, none⟩).mpr ⟨?_, ?_⟩⟩
    · refine ⟨by decide, fun _ h => (nomatch h), ?_⟩
      decide +kernel
    · rintro path f ⟨app, -, -, r, d, key, hr, hentry, -, hf, -⟩
      cases hr
      obtain rfl : _ = d := Entry.directory.inj (Option.some.inj hentry)
      obtain rfl : sampleKey = f := Option.some.inj hf
      rw [InRange]
      decide

/-- A file that was last changed a nanosecond before the epoch. -/
def oldKey : KeyFile := { sampleKey with mtimeNs := -1 }

def oldRoot : Root where
  metadata := samplePrivate
  entry _ := some (.directory ⟨1000, 0o700, fun _ => oldKey⟩)

/-- Such files are archived, and not restored. -/
theorem archive_refused : ∃ members,
    writeSourceKeyArchive sampleWorld sampleSnapshot (some oldRoot) = .ok members ∧
      Ready sampleWorld sampleSnapshot ⟨samplePrivate, none⟩ ∧
      (prepareSourceKeyRestore sampleWorld sampleSnapshot (written sampleWorld members)
        ⟨samplePrivate, none⟩).1 ≠ .ok () := by
  have hok : (writeSourceKeyArchive sampleWorld sampleSnapshot (some oldRoot)).isOk = true := by
    decide +kernel
  cases hwrite : writeSourceKeyArchive sampleWorld sampleSnapshot (some oldRoot) with
  | error e =>
    rw [hwrite] at hok
    cases hok
  | ok members =>
    refine ⟨members, rfl, ⟨by decide, fun _ h => (nomatch h), by decide +kernel⟩, ?_⟩
    intro hrestored
    have hrange := ((sourceKeys_restored hwrite _).1.mp hrestored).2
    obtain ⟨f, hf⟩ := (sourceKeys_restored hwrite ⟨samplePrivate, none⟩).2.2 ⟨"1", "app"⟩
      (by decide) (by decide) oldRoot rfl rfl "id_ed25519" (by decide)
    have hold := (hrange _ f hf).1
    obtain ⟨app, -, -, r, d, key, hr, hentry, -, hf, -⟩ := hf
    cases hr
    obtain rfl : _ = d := Entry.directory.inj (Option.some.inj hentry)
    obtain rfl : oldKey = f := Option.some.inj hf
    cases hold

end SourceKeyBackup
end Controller
end OpenstackPlatform
