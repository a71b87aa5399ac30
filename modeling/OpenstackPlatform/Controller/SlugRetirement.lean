import OpenstackPlatform.Controller.Applications
import OpenstackPlatform.Library.Run

/-!
# Retired slugs

`application_slug_tombstones` of `database.py` has two uses.  `put_application` refuses a slug that
is in it, and `get_application` and `list_applications` leave out an application whose ID is in it.
A deletion writes the slug of the deleted application.  So does `put_application` when it gives an
application another slug, and such an application is not found any more.

* `completeApplicationDeletion`, `listApplications`: the operations that are not in
  `Controller.Applications`.
* `History`, `Step`: the database over time, with the applications that were deleted.
* `OrdinaryEvent`: a step that neither renames an application nor gives one the ID of another as a
  slug.
* `retired_of_run`: a retired slug stays retired in every run.
* `visible_of_run`: what holds in runs of ordinary steps.
-/

namespace OpenstackPlatform
namespace Controller

open Library Validation

/-! ## The operations -/

/-- The operation is a deletion of the application that has done all but its last step. -/
def Operation.readyToComplete (operation : Operation) (applicationId : String) : Bool :=
  operation.kind == "app.delete" && operation.status.nonterminal &&
    (match operation.refs.get "application_id" with
      | .str id => id == applicationId
      | _ => false) &&
    operation.phase == "manifest_absent"

/-- The row of an application that was deleted. -/
def Application.removed (row : Application) : Application :=
  { row with
    desiredRunning := false
    workerServerId := none
    workerServerName := none
    workerPortId := none
    workerPortName := none }

/-- `complete_application_deletion`; `managed` are the applications that have rows in
`managed_resources`. -/
def completeApplicationDeletion (managed : List String) (applicationId : String)
    (operationId : OperationId) (db : Database) : Except Error Database := do
  checkUuid "application_id" applicationId
  checkUuid "operation_id" operationId
  match db.getOperation operationId with
  | none => .error (.database "application deletion operation is not ready to complete")
  | some operation =>
    require (operation.readyToComplete applicationId)
      (.database "application deletion operation is not ready to complete")
    require (!managed.contains applicationId)
      (.database "application deletion refuses managed resource rows")
    match db.applications.lookup applicationId with
    | none => .error (.database "application is missing")
    | some application =>
      let db' : Database := { db with
        tombstones :=
          if (db.tombstones.lookup application.slug).isSome then db.tombstones
          else db.tombstones.insert application.slug applicationId
        environmentKeys := db.environmentKeys.deleteWhere fun key _ => key.1 == applicationId
        applications := db.applications.insert applicationId application.removed
        activeDeployments := db.activeDeployments.modify applicationId
          fun active => { active with lifecycleState := .stopped } }
      db'.putOperation operationId { operation with
        status := .succeeded
        phase := "tombstoned"
        cleanupState := "confirmed" }

/-- `list_applications`, in the order of the slugs. -/
def listApplications (db : Database) : List (String × Application) :=
  ((db.applications.entries.filter fun e => notTombstoned db e.1).map fun e =>
    (e.1, e.2)).insertionSort fun a b => a.2.slug ≤ b.2.slug

/-! ## Histories -/

/-- The database, and the applications that were deleted. -/
structure History where
  db : Database
  deleted : List String

/-- What happens to the tables. -/
inductive HistoryEvent where
  | put (applicationId : String) (row : Application)
  | delete (managed : List String) (applicationId : String) (operationId : OperationId)
  | get (identifier : String)
  | list
  | other

/-- A write outside the modelled operations: it keeps the IDs, the slugs and the retired slugs. -/
structure KeepsSlugs (db db' : Database) : Prop where
  tombstones : db'.tombstones = db.tombstones
  slugs : ∀ id, (db'.applications.lookup id).map Application.slug =
    (db.applications.lookup id).map Application.slug

/-- One call.  A call that raises is rolled back. -/
inductive Step : History → HistoryEvent → History → Prop where
  | put {s : History} {applicationId : String} {row : Application} {db : Database}
      (h : putApplication s.db applicationId row = .ok db) :
      Step s (.put applicationId row) { s with db := db }
  | putRefused {s : History} {applicationId : String} {row : Application} {e : Error}
      (h : putApplication s.db applicationId row = .error e) : Step s (.put applicationId row) s
  | delete {s : History} {managed : List String} {applicationId : String}
      {operationId : OperationId} {db : Database}
      (h : completeApplicationDeletion managed applicationId operationId s.db = .ok db) :
      Step s (.delete managed applicationId operationId)
        { db := db, deleted := applicationId :: s.deleted }
  | deleteRefused {s : History} {managed : List String} {applicationId : String}
      {operationId : OperationId} {e : Error}
      (h : completeApplicationDeletion managed applicationId operationId s.db = .error e) :
      Step s (.delete managed applicationId operationId) s
  | get {s : History} {identifier : String} : Step s (.get identifier) s
  | list {s : History} : Step s .list s
  | other {s : History} {db : Database} (h : KeepsSlugs s.db db) : Step s .other { s with db := db }

/-- A history without rows. -/
def History.empty : History := ⟨Database.empty, []⟩

/-- The slug is not that of another application, and no slug is the ID of another one. -/
structure Apart (db : Database) (applicationId applicationSlug : String) : Prop where
  slug : ∀ id row, db.applications.lookup id = some row → notTombstoned db id = true →
    id ≠ applicationId → id ≠ applicationSlug ∧ row.slug ≠ applicationId

/-- A step that does not rename an application and gives none the ID of another one as its slug. -/
def OrdinaryEvent (s : History) : HistoryEvent → Prop
  | .put applicationId row =>
    (∀ existing, s.db.applications.lookup applicationId = some existing →
      existing.slug = row.slug) ∧ Apart s.db applicationId row.slug
  | _ => True

/-! ## What the operations write -/

variable {db : Database}

/-- An application is tombstoned when a retired slug belongs to it. -/
theorem notTombstoned_iff {id : String} :
    notTombstoned db id = true ↔ ∀ retired, db.tombstones.lookup retired ≠ some id := by
  rw [notTombstoned, Option.isNone_iff_eq_none, Table.find?_eq_none]
  constructor
  · intro h retired hretired
    have := h retired id hretired
    rw [beq_self_eq_true] at this
    cases this
  · intro h retired owner howner
    rw [beq_eq_false_iff_ne]
    rintro rfl
    exact h retired howner

variable {db' : Database} {applicationId : String}

/-- The slug of an application that takes another one is retired, and nothing else is. -/
theorem retireSlug_ok {applicationSlug : String}
    (h : retireSlug db applicationId applicationSlug = .ok db') :
    db'.applications = db.applications ∧ (db'.tombstones = db.tombstones ∨
      ∃ existing, db.applications.lookup applicationId = some existing ∧
        existing.slug ≠ applicationSlug ∧ db.tombstones.lookup existing.slug = none ∧
        db'.tombstones = db.tombstones.insert existing.slug applicationId) := by
  rw [retireSlug] at h
  split at h
  · rename_i existing hexisting
    split at h
    · rename_i hne
      obtain ⟨hnone, h⟩ := check_bind_eq_ok.mp h
      cases h
      exact ⟨rfl, .inr ⟨existing, hexisting, by simpa using hne,
        Option.isNone_iff_eq_none.mp (require_eq_ok.mp hnone), rfl⟩⟩
    · cases h
      exact ⟨rfl, .inl rfl⟩
  · cases h
    exact ⟨rfl, .inl rfl⟩

/-- What an accepted `put_application` does to the applications and to the retired slugs. -/
theorem putApplication_writes {row : Application}
    (h : putApplication db applicationId row = .ok db') :
    db.tombstones.lookup row.slug = none ∧
      (∀ id other, db.applications.lookup id = some other → id ≠ applicationId →
        other.slug ≠ row.slug) ∧
      db'.applications = db.applications.insert applicationId row ∧
      (db'.tombstones = db.tombstones ∨
        ∃ existing, db.applications.lookup applicationId = some existing ∧
          existing.slug ≠ row.slug ∧ db.tombstones.lookup existing.slug = none ∧
          db'.tombstones = db.tombstones.insert existing.slug applicationId) := by
  simp only [putApplication, check_bind_eq_ok] at h
  obtain ⟨-, -, -, -, -, hlive, h⟩ := h
  obtain ⟨db₁, hretire, h⟩ := bind_eq_ok.mp h
  obtain ⟨hunique, h⟩ := check_bind_eq_ok.mp h
  cases h
  obtain ⟨happlications, htombstones⟩ := retireSlug_ok hretire
  refine ⟨Option.isNone_iff_eq_none.mp (require_eq_ok.mp hlive), ?_, ?_, htombstones⟩
  · intro id other hother hne hslug
    have hnone := Table.find?_eq_none.mp (Option.isNone_iff_eq_none.mp (require_eq_ok.mp hunique))
    have := hnone id other (happlications ▸ hother)
    simp [hne, hslug] at this
  · show db₁.applications.insert applicationId row = _
    rw [happlications]

/-- What a completed deletion does to the applications and to the retired slugs. -/
theorem completeApplicationDeletion_writes {managed : List String} {operationId : OperationId}
    (h : completeApplicationDeletion managed applicationId operationId db = .ok db') :
    ∃ application, db.applications.lookup applicationId = some application ∧
      db'.applications = db.applications.insert applicationId application.removed ∧
      db'.tombstones =
        if (db.tombstones.lookup application.slug).isSome then db.tombstones
        else db.tombstones.insert application.slug applicationId := by
  simp only [completeApplicationDeletion, check_bind_eq_ok] at h
  obtain ⟨-, -, h⟩ := h
  split at h
  · cases h
  · obtain ⟨-, h⟩ := check_bind_eq_ok.mp h
    obtain ⟨-, h⟩ := check_bind_eq_ok.mp h
    split at h
    · cases h
    · rename_i application happlication
      obtain ⟨-, -, rfl⟩ := Database.putOperation_eq_ok.mp h
      exact ⟨application, happlication, rfl, rfl⟩

/-! ## Retired slugs -/

/-- The slugs that are retired stay retired, each by its application. -/
def Retires (db db' : Database) : Prop :=
  ∀ retired id, db.tombstones.lookup retired = some id → db'.tombstones.lookup retired = some id

theorem retires_insert {retired id : String} (hnew : db.tombstones.lookup retired = none)
    (h : db'.tombstones = db.tombstones.insert retired id) : Retires db db' := by
  intro retired' id' hretired
  rw [h, Table.lookup_insert_ite, if_neg, hretired]
  rintro rfl
  rw [hnew] at hretired
  cases hretired

variable {s : History}

/-- A step retires slugs and takes none back. -/
theorem Step.retires {t : History} {e : HistoryEvent} (h : Step s e t) : Retires s.db t.db := by
  cases h with
  | put h =>
    obtain ⟨-, -, -, htombstones | ⟨existing, -, -, hnew, htombstones⟩⟩ := putApplication_writes h
    · intro retired id hretired
      rw [htombstones]
      exact hretired
    · exact retires_insert hnew htombstones
  | delete h =>
    obtain ⟨application, -, -, htombstones⟩ := completeApplicationDeletion_writes h
    split at htombstones
    · intro retired id hretired
      rw [htombstones]
      exact hretired
    · rename_i hnew
      exact retires_insert (by simpa using hnew) htombstones
  | other h =>
    intro retired id hretired
    rw [h.tombstones]
    exact hretired
  | putRefused | deleteRefused | get | list => exact fun _ _ hretired => hretired

/-- A retired slug stays retired, and no application takes it. -/
theorem retired_of_run {t : History} {events : List HistoryEvent} (h : Run Step s events t)
    {retired id : String} (hretired : s.db.tombstones.lookup retired = some id) :
    t.db.tombstones.lookup retired = some id ∧
      ∀ applicationId row db, putApplication t.db applicationId row = .ok db → row.slug ≠ retired := by
  have hstays : t.db.tombstones.lookup retired = some id :=
    h.invariant hretired fun _ _ _ hs hstep => hstep.retires retired id hs
  refine ⟨hstays, fun applicationId row db hput => ?_⟩
  rintro rfl
  obtain ⟨hnone, -⟩ := putApplication_writes hput
  rw [hnone] at hstays
  cases hstays

/-! ## The invariant -/

/-- What ordinary steps keep. -/
structure Consistent (s : History) : Prop where
  /-- no two applications have one slug -/
  slugs : ∀ id id' row row', s.db.applications.lookup id = some row →
    s.db.applications.lookup id' = some row' → row.slug = row'.slug → id = id'
  /-- a slug is retired by a deletion -/
  retired : ∀ retired id, s.db.tombstones.lookup retired = some id → id ∈ s.deleted
  /-- a retired slug is that of its application -/
  owner : ∀ retired id, s.db.tombstones.lookup retired = some id →
    ∃ row, s.db.applications.lookup id = some row ∧ row.slug = retired
  /-- a deletion retires a slug -/
  removed : ∀ id ∈ s.deleted, ∃ retired, s.db.tombstones.lookup retired = some id
  /-- an application that was not deleted does not have the ID of another one as its slug -/
  apart : ∀ id id' row row', s.db.applications.lookup id = some row →
    s.db.applications.lookup id' = some row' → id ∉ s.deleted → id' ∉ s.deleted →
    id' = row.slug → id = id'

/-- An application that was not deleted is not tombstoned. -/
theorem Consistent.notTombstoned {s : History} (h : Consistent s) {id : String}
    (hid : id ∉ s.deleted) : notTombstoned s.db id = true :=
  notTombstoned_iff.mpr fun retired hretired => hid (h.retired retired id hretired)

theorem consistent_empty : Consistent History.empty := by
  constructor
  · intro id id' row row' hrow
    exact absurd hrow (by simp [History.empty, Database.empty])
  · intro retired id hretired
    exact absurd hretired (by simp [History.empty, Database.empty])
  · intro retired id hretired
    exact absurd hretired (by simp [History.empty, Database.empty])
  · intro id hid
    cases hid
  · intro id id' row row' hrow
    exact absurd hrow (by simp [History.empty, Database.empty])

theorem Consistent.put {row : Application} (hs : Consistent s)
    (h : putApplication s.db applicationId row = .ok db)
    (hordinary : OrdinaryEvent s (.put applicationId row)) : Consistent { s with db := db } := by
  obtain ⟨hsame, hapart⟩ := hordinary
  obtain ⟨-, hslug, happlications, htombstones⟩ := putApplication_writes h
  have hkept : db.tombstones = s.db.tombstones := by
    obtain hkept | ⟨existing, hexisting, hne, -⟩ := htombstones
    · exact hkept
    · exact absurd (hsame existing hexisting) hne
  constructor
  · intro id id' r r' hr hr' hrr
    rw [happlications, Table.lookup_insert_ite] at hr hr'
    split at hr <;> split at hr'
    · rename_i hid hid'
      rw [hid, hid']
    · rename_i hid hid'
      cases hr
      exact absurd hrr.symm (hslug id' r' hr' hid')
    · rename_i hid hid'
      cases hr'
      exact absurd hrr (hslug id r hr hid)
    · exact hs.slugs id id' r r' hr hr' hrr
  · intro retired id hretired
    exact hs.retired retired id (hkept ▸ hretired)
  · intro retired id hretired
    obtain ⟨r, hr, howner⟩ := hs.owner retired id (hkept ▸ hretired)
    rw [happlications]
    by_cases hid : id = applicationId
    · obtain rfl := hid
      exact ⟨row, AList.lookup_insert _, (hsame r hr).symm.trans howner⟩
    · exact ⟨r, by rw [Table.lookup_insert_ite, if_neg hid, hr], howner⟩
  · intro id hid
    show ∃ retired, db.tombstones.lookup retired = some id
    rw [hkept]
    exact hs.removed id hid
  · intro id id' r r' hr hr' hid hid' heq
    rw [happlications, Table.lookup_insert_ite] at hr hr'
    split at hr <;> split at hr'
    · rename_i hput hput'
      rw [hput, hput']
    · rename_i hput hput'
      cases hr
      exact absurd heq (hapart.slug id' r' hr' (hs.notTombstoned hid') hput').1
    · rename_i hput hput'
      have := (hapart.slug id r hr (hs.notTombstoned hid) hput).2
      exact absurd (heq.symm.trans hput') this
    · exact hs.apart id id' r r' hr hr' hid hid' heq

theorem Consistent.delete {managed : List String} {operationId : OperationId} (hs : Consistent s)
    (h : completeApplicationDeletion managed applicationId operationId s.db = .ok db) :
    Consistent { db := db, deleted := applicationId :: s.deleted } := by
  obtain ⟨application, happlication, happlications, htombstones⟩ :=
    completeApplicationDeletion_writes h
  have hrow : ∀ id r, db.applications.lookup id = some r →
      ∃ r₀, s.db.applications.lookup id = some r₀ ∧ r.slug = r₀.slug := by
    intro id r hr
    rw [happlications, Table.lookup_insert_ite] at hr
    split at hr
    · rename_i hid
      obtain rfl := Option.some.inj hr
      exact ⟨application, hid ▸ happlication, rfl⟩
    · exact ⟨r, hr, rfl⟩
  -- the slug of the application is retired, and by this application
  have hcases : ∀ retired id, db.tombstones.lookup retired = some id ↔
      s.db.tombstones.lookup retired = some id ∨ (retired = application.slug ∧ id = applicationId) := by
    intro retired id
    rw [htombstones]
    split
    · rename_i hsome
      obtain ⟨o, ho⟩ := Option.isSome_iff_exists.mp hsome
      obtain ⟨r, hr, hslug⟩ := hs.owner _ o ho
      obtain rfl := hs.slugs o applicationId r application hr happlication hslug
      refine ⟨.inl, fun hold => hold.elim (fun hold => hold) ?_⟩
      rintro ⟨rfl, rfl⟩
      exact ho
    · rename_i hnone
      rw [Table.lookup_insert_ite]
      split
      · rename_i heq
        have hfresh : s.db.tombstones.lookup retired = none := by
          rw [heq]
          simpa using hnone
        rw [hfresh]
        simp [heq, eq_comm]
      · rename_i hne
        simp [hne]
  constructor
  · intro id id' r r' hr hr' hrr
    obtain ⟨r₀, hr₀, hslug⟩ := hrow id r hr
    obtain ⟨r₀', hr₀', hslug'⟩ := hrow id' r' hr'
    exact hs.slugs id id' r₀ r₀' hr₀ hr₀' (hslug.symm.trans (hrr.trans hslug'))
  · intro retired id hretired
    obtain hold | ⟨-, rfl⟩ := (hcases retired id).mp hretired
    · exact List.mem_cons_of_mem _ (hs.retired retired id hold)
    · exact List.mem_cons_self
  · intro retired id hretired
    obtain hold | ⟨rfl, rfl⟩ := (hcases retired id).mp hretired
    · obtain ⟨r, hr, hslug⟩ := hs.owner retired id hold
      by_cases hid : id = applicationId
      · obtain rfl := hid
        obtain rfl := Option.some.inj (hr.symm.trans happlication)
        exact ⟨r.removed, by rw [happlications, AList.lookup_insert], hslug⟩
      · exact ⟨r, by rw [happlications, Table.lookup_insert_ite, if_neg hid, hr], hslug⟩
    · exact ⟨application.removed, by rw [happlications, AList.lookup_insert], rfl⟩
  · intro id hid
    obtain rfl | hid := List.mem_cons.mp hid
    · exact ⟨application.slug, (hcases _ _).mpr (.inr ⟨rfl, rfl⟩)⟩
    · obtain ⟨retired, hretired⟩ := hs.removed id hid
      exact ⟨retired, (hcases _ _).mpr (.inl hretired)⟩
  · intro id id' r r' hr hr' hid hid' heq
    obtain ⟨r₀, hr₀, hslug⟩ := hrow id r hr
    obtain ⟨r₀', hr₀', -⟩ := hrow id' r' hr'
    exact hs.apart id id' r₀ r₀' hr₀ hr₀' (fun hm => hid (List.mem_cons_of_mem _ hm))
      (fun hm => hid' (List.mem_cons_of_mem _ hm)) (heq.trans hslug)

theorem Consistent.other (hs : Consistent s) (h : KeepsSlugs s.db db) :
    Consistent { s with db := db } := by
  have hrow : ∀ id r, db.applications.lookup id = some r →
      ∃ r₀, s.db.applications.lookup id = some r₀ ∧ r.slug = r₀.slug := by
    intro id r hr
    have hslugs := h.slugs id
    rw [hr, Option.map_some] at hslugs
    obtain ⟨r₀, hr₀, hslug⟩ := Option.map_eq_some_iff.mp hslugs.symm
    exact ⟨r₀, hr₀, hslug.symm⟩
  constructor
  · intro id id' r r' hr hr' hrr
    obtain ⟨r₀, hr₀, hslug⟩ := hrow id r hr
    obtain ⟨r₀', hr₀', hslug'⟩ := hrow id' r' hr'
    exact hs.slugs id id' r₀ r₀' hr₀ hr₀' (hslug.symm.trans (hrr.trans hslug'))
  · intro retired id hretired
    rw [h.tombstones] at hretired
    exact hs.retired retired id hretired
  · intro retired id hretired
    rw [h.tombstones] at hretired
    obtain ⟨r₀, hr₀, hslug₀⟩ := hs.owner retired id hretired
    have hslugs := h.slugs id
    rw [hr₀, Option.map_some] at hslugs
    obtain ⟨r, hr, hslug⟩ := Option.map_eq_some_iff.mp hslugs
    exact ⟨r, hr, hslug.trans hslug₀⟩
  · intro id hid
    show ∃ retired, db.tombstones.lookup retired = some id
    rw [h.tombstones]
    exact hs.removed id hid
  · intro id id' r r' hr hr' hid hid' heq
    obtain ⟨r₀, hr₀, hslug⟩ := hrow id r hr
    obtain ⟨r₀', hr₀', -⟩ := hrow id' r' hr'
    exact hs.apart id id' r₀ r₀' hr₀ hr₀' hid hid' (heq.trans hslug)

theorem Step.consistent {t : History} {e : HistoryEvent} (h : Step s e t) (hs : Consistent s)
    (hordinary : OrdinaryEvent s e) : Consistent t := by
  cases h with
  | put h => exact hs.put h hordinary
  | delete h => exact hs.delete h
  | other h => exact hs.other h
  | putRefused | deleteRefused | get | list => exact hs

/-! ## The main result -/

/-- The application is found by its ID and by its slug, and is listed once. -/
structure Visible (db : Database) (id : String) (row : Application) : Prop where
  byId : getApplication db id = some (id, row)
  bySlug : getApplication db row.slug = some (id, row)
  listed : (id, row) ∈ listApplications db
  once : ((listApplications db).map Prod.fst).count id = 1

/-- The IDs of listed applications are different. -/
theorem nodup_listApplications (db : Database) : ((listApplications db).map Prod.fst).Nodup := by
  have hperm := (List.perm_insertionSort (fun a b : String × Application => a.2.slug ≤ b.2.slug)
    ((db.applications.entries.filter fun e => notTombstoned db e.1).map fun e => (e.1, e.2))).map
      Prod.fst
  have hkeys : (((db.applications.entries.filter fun e => notTombstoned db e.1).map fun e =>
      (e.1, e.2)).map Prod.fst).Nodup := by
    rw [List.map_map]
    exact List.NodupKeys.sublist List.filter_sublist db.applications.nodupKeys
  exact hperm.nodup_iff.mpr hkeys

theorem Consistent.visible (h : Consistent s) {id : String} {row : Application}
    (hrow : s.db.applications.lookup id = some row) (hid : id ∉ s.deleted) :
    Visible s.db id row := by
  have hlive := h.notTombstoned hid
  have hlisted : (id, row) ∈ listApplications s.db := by
    rw [listApplications, List.mem_insertionSort, List.mem_map]
    exact ⟨⟨id, row⟩, List.mem_filter.mpr ⟨Table.lookup_eq_some_iff.mp hrow, hlive⟩, rfl⟩
  have hfound : Table.find? s.db.applications (fun id' a => a.slug == row.slug &&
      Controller.notTombstoned s.db id') = some (id, row) := by
    have hmatch : (row.slug == row.slug && Controller.notTombstoned s.db id) = true := by
      rw [beq_self_eq_true, hlive, Bool.and_self]
    obtain ⟨id', row', hfind⟩ := Table.find?_isSome_of_lookup (p := fun id' a =>
      a.slug == row.slug && Controller.notTombstoned s.db id') hrow hmatch
    obtain ⟨hrow', hslug⟩ := Table.find?_eq_some hfind
    rw [Bool.and_eq_true, beq_iff_eq] at hslug
    obtain rfl := h.slugs id' id row' row hrow' hrow hslug.1
    rw [hfind, Option.some.inj (hrow'.symm.trans hrow)]
  refine ⟨?_, ?_, hlisted, ?_⟩
  · simp only [getApplication, hrow, hlive, if_true]
  · rw [getApplication]
    split
    · rename_i other hother
      split
      · rename_i hlive'
        by_cases hdeleted : row.slug ∈ s.deleted
        · obtain ⟨retired, hretired⟩ := h.removed row.slug hdeleted
          exact absurd hretired (notTombstoned_iff.mp hlive' retired)
        · obtain rfl := h.apart id row.slug row other hrow hother hid hdeleted rfl
          rw [Option.some.inj (hother.symm.trans hrow)]
      · exact hfound
    · exact hfound
  · refine List.count_eq_one_of_mem (nodup_listApplications s.db) ?_
    exact List.mem_map_of_mem hlisted

/-- **Slug retirement.**  A retired slug stays retired and is not written again, and in a run of
ordinary steps every application that was not deleted is visible. -/
theorem visible_of_run {t : History} {events : List HistoryEvent}
    (h : Run (restrict Step OrdinaryEvent) History.empty events t) :
    (∀ retired id, t.db.tombstones.lookup retired = some id →
      ∀ {later : List HistoryEvent} {u : History}, Run Step t later u →
        u.db.tombstones.lookup retired = some id ∧ ∀ applicationId row db,
          putApplication u.db applicationId row = .ok db → row.slug ≠ retired) ∧
    ∀ id row, t.db.applications.lookup id = some row → id ∉ t.deleted → Visible t.db id row := by
  have hconsistent : Consistent t :=
    h.invariant consistent_empty fun _ _ _ hs hstep => hstep.1.consistent hs hstep.2
  refine ⟨fun retired id hretired later u hlater => retired_of_run hlater hretired, ?_⟩
  intro id row hrow hid
  exact hconsistent.visible hrow hid

/-! ## Two renamings -/

/-- The row of an application with a slug. -/
def slugRow (applicationSlug : String) : Application := samplePolicy.inert applicationSlug

/-- The writes of rows, one after the other. -/
def putRows : List (String × String) → Database → Except Error Database
  | [], db => .ok db
  | (id, applicationSlug) :: rows, db => do
    let db ← putApplication db id (slugRow applicationSlug)
    putRows rows db

theorem run_putRows : ∀ {rows : List (String × String)} {s : History} {db : Database},
    putRows rows s.db = .ok db →
      Run Step s (rows.map fun r => .put r.1 (slugRow r.2)) { s with db := db }
  | [], s, db, h => by
    cases h
    exact .nil
  | r :: rows, s, db, h => by
    rw [putRows] at h
    obtain ⟨db₁, hput, h⟩ := bind_eq_ok.mp h
    have hfirst : Step s (.put r.1 (slugRow r.2)) { s with db := db₁ } := .put hput
    exact Run.cons hfirst (run_putRows (s := { s with db := db₁ }) h)

/-- What `get_application` and `list_applications` find after some writes. -/
def found (rows : List (String × String)) (identifier : String) :
    Option (Option String × Option String × List String) :=
  (putRows rows Database.empty).toOption.map fun db =>
    ((db.applications.lookup identifier).map Application.slug,
      (getApplication db identifier).map fun a => a.2.slug,
      (listApplications db).map fun a => a.2.slug)

theorem exists_of_found {rows : List (String × String)} {identifier : String}
    {x : Option String × Option String × List String} (h : found rows identifier = some x) :
    ∃ db, putRows rows Database.empty = .ok db ∧
      (db.applications.lookup identifier).map Application.slug = x.1 ∧
      (getApplication db identifier).map (fun a => a.2.slug) = x.2.1 ∧
      (listApplications db).map (fun a => a.2.slug) = x.2.2 := by
  obtain ⟨db, hdb, rfl⟩ := Option.map_eq_some_iff.mp h
  cases hrows : putRows rows Database.empty with
  | error e =>
    rw [hrows] at hdb
    cases hdb
  | ok db' =>
    rw [hrows] at hdb
    obtain rfl := Option.some.inj hdb
    exact ⟨db', rfl, rfl, rfl, rfl⟩

/-- An application that takes another slug is not deleted, and is neither found nor listed. -/
theorem renamed_application_lost :
    ∃ t, Run Step History.empty
        [.put "00000000-0000-4000-8000-000000000001" (slugRow "demo-app"),
          .put "00000000-0000-4000-8000-000000000001" (slugRow "demo-renamed")] t ∧
      t.deleted = [] ∧
      (t.db.applications.lookup "00000000-0000-4000-8000-000000000001").map Application.slug =
        some "demo-renamed" ∧
      getApplication t.db "00000000-0000-4000-8000-000000000001" = none ∧
      listApplications t.db = [] := by
  have hfound : found [("00000000-0000-4000-8000-000000000001", "demo-app"),
      ("00000000-0000-4000-8000-000000000001", "demo-renamed")]
        "00000000-0000-4000-8000-000000000001" = some (some "demo-renamed", none, []) := by
    decide +kernel
  obtain ⟨db, hrows, hslug, hget, hlist⟩ := exists_of_found hfound
  exact ⟨_, run_putRows (s := History.empty) hrows, rfl, hslug, Option.map_eq_none_iff.mp hget,
    List.map_eq_nil_iff.mp hlist⟩

/-- An application is visible after it was declared. -/
theorem declared_application_visible :
    ∃ t, Run Step History.empty
        [.put "00000000-0000-4000-8000-000000000001" (slugRow "demo-app")] t ∧
      Visible t.db "00000000-0000-4000-8000-000000000001" (slugRow "demo-app") := by
  have hfound : found [("00000000-0000-4000-8000-000000000001", "demo-app")]
      "00000000-0000-4000-8000-000000000001" = some (some "demo-app", some "demo-app", ["demo-app"]) := by
    decide +kernel
  obtain ⟨db, hrows, -⟩ := exists_of_found hfound
  rw [putRows] at hrows
  obtain ⟨db', hok, hrows⟩ := bind_eq_ok.mp hrows
  obtain rfl := Except.ok.inj hrows
  have hordinary : OrdinaryEvent History.empty
      (.put "00000000-0000-4000-8000-000000000001" (slugRow "demo-app")) := by
    constructor
    · intro existing hexisting
      exact absurd hexisting (by simp [History.empty, Database.empty])
    · constructor
      intro id row hrow
      exact absurd hrow (by simp [History.empty, Database.empty])
  have hstep : restrict Step OrdinaryEvent History.empty
      (.put "00000000-0000-4000-8000-000000000001" (slugRow "demo-app")) ⟨db', []⟩ :=
    ⟨.put hok, hordinary⟩
  have hrun := Run.cons hstep .nil
  obtain ⟨-, hvisible⟩ := visible_of_run hrun
  refine ⟨⟨db', []⟩, hrun.of_restrict, hvisible _ _ ?_ List.not_mem_nil⟩
  obtain ⟨-, -, happlications, -⟩ := putApplication_writes hok
  rw [happlications, AList.lookup_insert]

end Controller
end OpenstackPlatform
