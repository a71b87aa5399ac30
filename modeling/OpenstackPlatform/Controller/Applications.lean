import OpenstackPlatform.Controller.Journal

/-!
# Declaring applications

`ApplicationService.declare` with the write of `database.py` under it, and the names the platform
derives from a slug: the job IDs of its two slots, the Nomad Variable of each job, and the host
names of the live and the preview route.

* `putApplication`, `declare`: the write and the service call.
* `jobId`, `variablePath`, `hostname`, `previewHostname`: one name each, as `render_nomad_job`
  builds it.
* `Names`: all the names of one slug; `Names.Disjoint` says that two slugs share none.
* `declared_names_disjoint_iff`: when two declared slugs share none.
-/

namespace OpenstackPlatform
namespace Controller

open Library Validation

/-! ## The write -/

/-- `get_slug_tombstone`, of a slug that was checked. -/
def getSlugTombstone (db : Database) (applicationSlug : String) : Option String :=
  db.tombstones.lookup applicationSlug

/-- `slug(value)` -/
def checkSlug (value : String) : Except Error Unit :=
  require (isSlug value) (.validation (slugMessage value))

/-- The slug of an application that takes another one is retired. -/
def retireSlug (db : Database) (applicationId applicationSlug : String) : Except Error Database :=
  match db.applications.lookup applicationId with
  | some existing =>
    if existing.slug != applicationSlug then do
      require (db.tombstones.lookup existing.slug).isNone (.integrity .slugTombstonesPrimaryKey)
      return { db with tombstones := db.tombstones.insert existing.slug applicationId }
    else return db
  | none => return db

/-- `put_application`.  An application keeps one row under its ID; no two rows have one slug. -/
def putApplication (db : Database) (applicationId : String) (row : Application) :
    Except Error Database := do
  checkUuid "application_id" applicationId
  checkSlug row.slug
  checkGiven (checkUuid "worker_server_id") row.workerServerId
  checkGiven (checkUuid "worker_port_id") row.workerPortId
  require (0 < row.schedulerCpuMhz && 0 < row.schedulerMemoryMib && row.workerFlavor != "")
    (.validation "application sizing must be positive and have a worker flavor")
  require (db.tombstones.lookup row.slug).isNone
    (.database "application slug is permanently retired")
  let db ← retireSlug db applicationId row.slug
  require (Table.find? db.applications fun id other => id != applicationId &&
    other.slug == row.slug).isNone (.integrity .applicationsSlug)
  let state := if row.desiredRunning then LifecycleState.running else .stopped
  return { db with
    applications := db.applications.insert applicationId row
    environmentRevisions :=
      if (db.environmentRevisions.lookup applicationId).isSome then db.environmentRevisions
      else db.environmentRevisions.insert applicationId 0
    activeDeployments := db.activeDeployments.modify applicationId
      fun active => { active with lifecycleState := state } }

/-! ## The service -/

/-- `_RESERVED_APPLICATION_SLUGS` -/
def reservedApplicationSlugs : List String := ["admin", "api", "auth", "status", "www"]

/-- What `declare` reads from the configuration: the standard sizing and the public domain. -/
structure DeclarePolicy where
  domain : String
  workerFlavor : String
  cpuMhz : Nat
  memoryMib : Nat
  deriving DecidableEq, Repr

/-- `ApplicationCreated` -/
structure ApplicationCreated where
  applicationId : String
  slug : String
  url : String
  enabled : Bool
  deriving DecidableEq, Repr

/-- The row of an application that was only declared. -/
def DeclarePolicy.inert (policy : DeclarePolicy) (applicationSlug : String) : Application where
  slug := applicationSlug
  repositoryUrl := none
  desiredRunning := false
  workerServerId := none
  workerServerName := none
  workerPortId := none
  workerPortName := none
  workerFlavor := policy.workerFlavor
  schedulerCpuMhz := policy.cpuMhz
  schedulerMemoryMib := policy.memoryMib

/-- `ApplicationService.declare`; `fresh` is the text of `uuid4()`, used when no ID is given. -/
def declare (policy : DeclarePolicy) (fresh : String) (applicationSlug : String)
    (applicationId : Option String) (db : Database) :
    Except Error (ApplicationCreated × Database) := do
  checkSlug applicationSlug
  require (!reservedApplicationSlugs.contains applicationSlug)
    (.validation "application slug is reserved by the platform")
  require (getApplication db applicationSlug).isNone (.validation "application already exists")
  require (getSlugTombstone db applicationSlug).isNone
    (.validation "application slug is permanently reserved")
  checkGiven (checkUuid "application ID") applicationId
  let identifier := applicationId.getD fresh
  let db ← putApplication db identifier (policy.inert applicationSlug)
  return (⟨identifier, applicationSlug, s!"https://{applicationSlug}.{policy.domain}", false⟩, db)

/-- An accepted declaration names the slug it was given, which is well formed and not reserved. -/
theorem declare_ok {policy : DeclarePolicy} {fresh applicationSlug : String}
    {applicationId : Option String} {db db' : Database} {created : ApplicationCreated}
    (h : declare policy fresh applicationSlug applicationId db = .ok (created, db')) :
    isSlug applicationSlug = true ∧ applicationSlug ∉ reservedApplicationSlugs ∧
      created.slug = applicationSlug ∧ created.applicationId = applicationId.getD fresh ∧
      putApplication db (applicationId.getD fresh) (policy.inert applicationSlug) = .ok db' := by
  simp only [declare, checkSlug, bind_eq_ok, require_eq_ok, Bool.not_eq_true',
    List.contains_eq_mem, decide_eq_false_iff_not] at h
  obtain ⟨-, hslug, -, hreserved, -, -, -, -, -, -, db₁, hput, h⟩ := h
  cases h
  exact ⟨hslug, hreserved, rfl, rfl, hput⟩

/-! ## Derived names -/

/-- The ID of an application's job, in its stable or in its candidate slot. -/
def jobId (applicationSlug : String) (candidate : Bool) : String :=
  if candidate then applicationSlug ++ "-candidate" else applicationSlug

/-- The Nomad Variable a job reads. -/
def variablePath (jobId : String) : String := "nomad/jobs/" ++ jobId

/-- The public host name. -/
def hostname (domain applicationSlug : String) : String := applicationSlug ++ "." ++ domain

/-- The host name of the preview route. -/
def previewHostname (domain applicationSlug : String) : String :=
  applicationSlug ++ "-preview." ++ domain

/-- The names derived from one slug. -/
structure Names where
  jobIds : List String
  variablePaths : List String
  hostnames : List String
  deriving DecidableEq, Repr

/-- `jobId`, `variablePath`, `hostname` and `previewHostname` of one slug. -/
def namesOf (domain applicationSlug : String) : Names where
  jobIds := [jobId applicationSlug false, jobId applicationSlug true]
  variablePaths :=
    [variablePath (jobId applicationSlug false), variablePath (jobId applicationSlug true)]
  hostnames := [hostname domain applicationSlug, previewHostname domain applicationSlug]

/-- Two sets of names have none in common. -/
structure Names.Disjoint (m n : Names) : Prop where
  jobIds : m.jobIds.Disjoint n.jobIds
  variablePaths : m.variablePaths.Disjoint n.variablePaths
  hostnames : m.hostnames.Disjoint n.hostnames

/-- One slug is the other with the suffix of a candidate job or of a preview host. -/
def Extends (longer shorter : String) : Prop :=
  longer = shorter ++ "-candidate" ∨ longer = shorter ++ "-preview"

instance (longer shorter : String) : Decidable (Extends longer shorter) :=
  inferInstanceAs (Decidable (_ ∨ _))

/-- Pairs made by one suffix are disjoint when neither base is the other one with the suffix. -/
theorem disjoint_pair_iff {s t suffix : String} (hst : s ≠ t) :
    [s, s ++ suffix].Disjoint [t, t ++ suffix] ↔ s ≠ t ++ suffix ∧ t ≠ s ++ suffix := by
  have hsuffix : s ++ suffix ≠ t ++ suffix := fun h => hst ((String.append_left_inj suffix).mp h)
  simp only [List.disjoint_cons_left, List.disjoint_nil_left, List.mem_cons, List.not_mem_nil,
    or_false, not_or, and_true]
  constructor
  · rintro ⟨⟨-, h⟩, h', -⟩
    exact ⟨h, fun he => h' he.symm⟩
  · rintro ⟨h, h'⟩
    exact ⟨⟨hst, h⟩, fun he => h' he.symm, hsuffix⟩

/-- An injective renaming neither makes nor breaks disjointness. -/
theorem disjoint_map_iff {f : String → String} (hf : Function.Injective f) {l m : List String} :
    (l.map f).Disjoint (m.map f) ↔ l.Disjoint m :=
  ⟨List.Disjoint.of_map, fun h => List.disjoint_map hf h⟩

theorem variablePath_injective : Function.Injective variablePath :=
  fun _ _ h => (String.append_right_inj _).mp h

theorem hostname_injective (domain : String) : Function.Injective (hostname domain) := by
  intro s t h
  exact (String.append_left_inj _).mp ((String.append_left_inj _).mp h)

/-- A preview host is the host of the slug with the suffix. -/
theorem previewHostname_eq (domain s : String) :
    previewHostname domain s = hostname domain (s ++ "-preview") := by
  rw [previewHostname, hostname, String.append_assoc, String.append_assoc, String.append_assoc]
  rfl

/-- Two different slugs share no derived name when neither extends the other. -/
theorem disjoint_namesOf_iff {domain s t : String} (hst : s ≠ t) :
    (namesOf domain s).Disjoint (namesOf domain t) ↔ ¬ Extends s t ∧ ¬ Extends t s := by
  have hjobs : [s, s ++ "-candidate"].Disjoint [t, t ++ "-candidate"] ↔ _ := disjoint_pair_iff hst
  have hvariables := disjoint_map_iff variablePath_injective
    (l := [s, s ++ "-candidate"]) (m := [t, t ++ "-candidate"])
  have hhosts := disjoint_map_iff (hostname_injective domain)
    (l := [s, s ++ "-preview"]) (m := [t, t ++ "-preview"])
  rw [disjoint_pair_iff hst] at hhosts
  simp only [List.map_cons, List.map_nil, ← previewHostname_eq] at hhosts
  constructor
  · rintro ⟨hj, -, hh⟩
    obtain ⟨hsc, htc⟩ := hjobs.mp hj
    obtain ⟨hsp, htp⟩ := hhosts.mp hh
    exact ⟨not_or.mpr ⟨hsc, hsp⟩, not_or.mpr ⟨htc, htp⟩⟩
  · rintro ⟨hs, ht⟩
    obtain ⟨hsc, hsp⟩ := not_or.mp hs
    obtain ⟨htc, htp⟩ := not_or.mp ht
    have hj := hjobs.mpr ⟨hsc, htc⟩
    exact ⟨hj, hvariables.mpr hj, hhosts.mpr ⟨hsp, htp⟩⟩

/-- The names of two accepted declarations, made in any order and in any states of the database,
are disjoint exactly when neither slug extends the other.  What collides is a slug that is the
name of the other's candidate or preview: these suffixes are not among the reserved slugs. -/
theorem declared_names_disjoint_iff {policy : DeclarePolicy} {fresh₁ fresh₂ slug₁ slug₂ : String}
    {id₁ id₂ : Option String} {db₁ db₁' db₂ db₂' : Database} {created₁ created₂ : ApplicationCreated}
    (h₁ : declare policy fresh₁ slug₁ id₁ db₁ = .ok (created₁, db₁'))
    (h₂ : declare policy fresh₂ slug₂ id₂ db₂ = .ok (created₂, db₂')) (hne : slug₁ ≠ slug₂) :
    (namesOf policy.domain created₁.slug).Disjoint (namesOf policy.domain created₂.slug) ↔
      ¬ Extends slug₁ slug₂ ∧ ¬ Extends slug₂ slug₁ := by
  obtain ⟨-, -, hslug₁, -⟩ := declare_ok h₁
  obtain ⟨-, -, hslug₂, -⟩ := declare_ok h₂
  rw [hslug₁, hslug₂]
  exact disjoint_namesOf_iff hne

/-- A policy with a standard sizing. -/
def samplePolicy : DeclarePolicy := ⟨"apps.example.org", "small", 500, 512⟩

/-- `shop` and then another slug, declared in an empty database. -/
def declareAfterShop (applicationSlug : String) :
    Except Error ((ApplicationCreated × Database) × ApplicationCreated × Database) := do
  let shop ← declare samplePolicy "00000000-0000-4000-8000-000000000001" "shop" none Database.empty
  let other ← declare samplePolicy "00000000-0000-4000-8000-000000000002" applicationSlug none
    shop.2
  return (shop, other)

theorem exists_declareAfterShop (applicationSlug : String)
    (h : (declareAfterShop applicationSlug).isOk = true) :
    ∃ shop db₁ other db₂,
      declare samplePolicy "00000000-0000-4000-8000-000000000001" "shop" none Database.empty =
        .ok (shop, db₁) ∧
      declare samplePolicy "00000000-0000-4000-8000-000000000002" applicationSlug none db₁ =
        .ok (other, db₂) := by
  cases hx : declareAfterShop applicationSlug with
  | error e =>
    rw [hx] at h
    exact absurd h (by simp [Except.isOk, Except.toBool])
  | ok r =>
    simp only [declareAfterShop, bind_eq_ok] at hx
    obtain ⟨⟨shop, db₁⟩, h₁, ⟨other, db₂⟩, h₂, -⟩ := hx
    exact ⟨shop, db₁, other, db₂, h₁, h₂⟩

/-- `shop` and `shop-candidate` can both be declared, and the candidate job of the first has the
ID of the stable job of the second. -/
theorem declared_names_collide :
    ∃ shop db₁ other db₂,
      declare samplePolicy "00000000-0000-4000-8000-000000000001" "shop" none Database.empty =
        .ok (shop, db₁) ∧
      declare samplePolicy "00000000-0000-4000-8000-000000000002" "shop-candidate" none db₁ =
        .ok (other, db₂) ∧
      jobId shop.slug true = jobId other.slug false ∧
      ¬ (namesOf samplePolicy.domain shop.slug).Disjoint
        (namesOf samplePolicy.domain other.slug) := by
  obtain ⟨shop, db₁, other, db₂, h₁, h₂⟩ :=
    exists_declareAfterShop "shop-candidate" (by decide)
  obtain ⟨-, -, hshop, -⟩ := declare_ok h₁
  obtain ⟨-, -, hother, -⟩ := declare_ok h₂
  refine ⟨shop, db₁, other, db₂, h₁, h₂, ?_, ?_⟩
  · rw [hshop, hother]
    rfl
  · rw [hshop, hother]
    rintro ⟨hjobs, -, -⟩
    exact hjobs (a := "shop-candidate") (by decide) (by decide)

/-- `shop` and `blog` share no name. -/
theorem shop_and_blog_disjoint :
    ∃ shop db₁ other db₂,
      declare samplePolicy "00000000-0000-4000-8000-000000000001" "shop" none Database.empty =
        .ok (shop, db₁) ∧
      declare samplePolicy "00000000-0000-4000-8000-000000000002" "blog" none db₁ =
        .ok (other, db₂) ∧
      (namesOf samplePolicy.domain shop.slug).Disjoint
        (namesOf samplePolicy.domain other.slug) := by
  obtain ⟨shop, db₁, other, db₂, h₁, h₂⟩ :=
    exists_declareAfterShop "blog" (by decide)
  exact ⟨shop, db₁, other, db₂, h₁, h₂,
    (declared_names_disjoint_iff h₁ h₂ (by decide)).mpr (by decide)⟩

end Controller
end OpenstackPlatform
