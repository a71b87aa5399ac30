import OpenstackPlatform.Controller.Applications
import OpenstackPlatform.Controller.DeploymentAttempts
import OpenstackPlatform.Controller.Recipe
import OpenstackPlatform.Library.Hcl

/-!
# Nomad jobs

`render_nomad_job` of `nomad_jobs.py`.  The job is one formatted text.  Here it is a template, line
by line: what the text has of the platform and of the deployment stands in it as it is written, and
what it has of the application, its slug and its configuration, are values.

* `PlatformConfig`: the inventory values of a job, with the patterns that `load_platform` checks.
* `JobArguments`, `JobFrame`, `JobValues`, `Job`.
* `bindingAliases`, `derivedEnvironment`, `excludedKeys`, `platformEnvironment`: the parts of a job
  that depend on its storage bindings.
* `buildJob`: the checks of `render_nomad_job` and the values they lead to.
* `Job.lines`, `Job.identity`, `Job.text`, `renderNomadJob`: the text.
-/

namespace OpenstackPlatform
namespace Controller

open Library Library.Hcl Validation

/-! ## The platform -/

/-- `_NAME`: `[A-Za-z0-9][A-Za-z0-9 ._-]{0,127}` -/
def isPlatformName (s : String) : Bool :=
  match s.toList with
  | [] => false
  | c :: cs =>
    isAlnum c && cs.length ≤ 127 &&
      cs.all fun d => isAlnum d || d == ' ' || d == '.' || d == '_' || d == '-'

/-- `_NAMESPACE`: `[a-z0-9][a-z0-9-]{1,30}[a-z0-9]` -/
def isNamespace (s : String) : Bool :=
  match s.toList with
  | [] => false
  | c :: cs =>
    isLowerAlnum c && 2 ≤ cs.length && cs.length ≤ 31 &&
      (cs.all fun d => isLowerAlnum d || d == '-') && (cs.getLast?.any isLowerAlnum)

/-- `[a-z0-9](?:[a-z0-9-]{0,61}[a-z0-9])?`, with its first characters as a parameter. -/
def isLabel (first : Char → Bool) (label : List Char) : Bool :=
  label.head?.any first && label.length ≤ 63 && (label.all fun d => isLowerAlnum d || d == '-') &&
    label.getLast?.any isLowerAlnum

/-- `_DOMAIN`: at least two labels and at most 253 characters; the last label starts with a
letter. -/
def isDomain (s : String) : Bool :=
  let labels := s.toList.splitOn '.'
  s.length ≤ 253 && 2 ≤ labels.length && labels.dropLast.all (isLabel isLowerAlnum) &&
    labels.getLast?.any (isLabel Char.isLower)

/-- `PlatformConfig`: the values of the inventory that a job is rendered with. -/
structure PlatformConfig where
  platformNamespace : String
  domain : String
  datacenter : String
  region : String
  /-- `internalNames.storage` -/
  storageName : String
  /-- `addresses.storage` -/
  storageAddress : String
  namespace_ok : isNamespace platformNamespace = true
  domain_ok : isDomain domain = true
  datacenter_ok : isPlatformName datacenter = true
  region_ok : isPlatformName region = true
  deriving DecidableEq, Repr

/-- `APPLICATION_HOST_PORT` -/
def applicationHostPort : Nat := 8080

/-- `DEPLOYMENT_ROUTE_HEADER` -/
def deploymentRouteHeader : String := "X-Platform-Deployment"

/-- `NOMAD_CANDIDATE_JOB_SHA_KEY` -/
def nomadCandidateJobShaKey : String := "platform_candidate_job_sha256"

/-- `NOMAD_CANDIDATE_IMAGE_KEY` -/
def nomadCandidateImageKey : String := "platform_candidate_image"

/-- `NOMAD_ROUTE_MARKER_KEY` -/
def nomadRouteMarkerKey : String := "platform_route_marker"

/-- `NOMAD_SOURCE_COMMIT_KEY` -/
def nomadSourceCommitKey : String := "platform_source_commit"

/-- `NOMAD_RECIPE_SHA_KEY` -/
def nomadRecipeShaKey : String := "platform_recipe_sha256"

/-- `HEALTHY_DEADLINE_SECONDS` -/
def healthyDeadlineSeconds : Nat := 600

/-- `PROGRESS_DEADLINE_SECONDS` -/
def progressDeadlineSeconds : Nat := 720

/-! ## What a job is rendered from -/

/-- The arguments of `render_nomad_job`, but for the manifest and the platform. -/
structure JobArguments where
  applicationId : String
  applicationSlug : String
  image : String
  cpuMhz : Int
  memoryMib : Int
  sourceCommit : String
  recipeHash : String
  candidate : Bool := false
  placementId : Option String := none
  staged : Bool := false
  promoted : Bool := false
  routeMarker : Option String := none
  routePriority : Int := 100
  forcePull : Bool := true
  deriving DecidableEq, Repr

/-- What a job has of the platform and of its deployment. -/
structure JobFrame where
  platform : PlatformConfig
  placement : String
  markerId : String
  imagePin : String
  cpuMhz : Int
  memoryMib : Int
  checkedSource : String
  checkedRecipe : String
  staged : Bool
  promoted : Bool
  routePriority : Int
  forcePull : Bool
  deriving DecidableEq, Repr

/-- What a job has of its application: names that are made of the slug, and values of the
configuration. -/
structure JobValues where
  jobId : String
  hostname : String
  previewHostname : String
  variablePath : String
  port : Nat
  healthPath : String
  /-- a key of the app's variable, and the name it is given -/
  bindingAliases : List (String × String)
  excludedKeys : List String
  platformEnvironment : List (String × String)
  deriving DecidableEq, Repr

/-- One job. -/
structure Job where
  frame : JobFrame
  values : JobValues
  deriving DecidableEq, Repr

/-- `value or default`, of an optional string. -/
def orDefault (value : Option String) (default : String) : String :=
  match value with
  | some s => if s = "" then default else s
  | none => default

/-- `sha256_hex` -/
def checkSha256Hex (field value : String) : Except Error Unit :=
  require (isSha256Hex value)
    (.validation s!"{field} must be 64 lowercase hexadecimal characters")

/-! ## Storage bindings -/

/-- The outputs of the bindings, each with its binding and its target. -/
def bindingOutputs (m : Manifest) : List (StorageBinding × String × String) :=
  m.storageBindings.flatMap fun b => b.environment.map fun o => (b, o)

/-- The output is derived: the platform sets it. -/
def isDerived (o : StorageBinding × String × String) : Bool :=
  o.1.resourceType.derivedOutputs.contains o.2.1

/-- `binding_aliases`: keys of the app's variable and their targets. -/
def bindingAliases (m : Manifest) : Except Error (List (String × String)) :=
  ((bindingOutputs m).filter fun o => !isDerived o).mapM fun o => do
    let key ← canonicalSecretKey o.1.resourceType o.1.name o.2.1
    return (key, o.2.2)

/-- `derived_environment`: targets and their values. -/
def derivedEnvironment (domain : String) (m : Manifest) : Except Error (List (String × String)) :=
  ((bindingOutputs m).filter isDerived).mapM fun o => do
    let value ← derivedOutput o.1.resourceType o.2.1 domain
    return (o.2.2, value)

/-- The order of `sorted`, on strings. -/
def stringLE (a b : String) : Prop := Text.ofString a ≤ Text.ofString b

instance : DecidableRel stringLE := fun a b =>
  inferInstanceAs (Decidable (Text.ofString a ≤ Text.ofString b))

/-- `excluded_keys` -/
def excludedKeys (m : Manifest) : Except Error (List String) := do
  let keys ← m.storageBindings.mapM fun b => do
    let canonical ← canonicalSecretKeys b.resourceType b.name
    let retired ← retiredSecretKeys b.resourceType b.name
    return canonical ++ retired
  return (reservedEnvironmentKeys ++ keys.flatten).dedup.insertionSort stringLE

/-- A dictionary of entries; a later entry takes the place of an earlier one. -/
def dictionary (entries : List (String × String)) : Table String String :=
  entries.foldl (fun t e => t.insert e.1 e.2) ∅

/-- `platform_environment`: the sorted items of the dictionary. -/
def platformEnvironment (derived : List (String × String)) (identifier appSlug : String)
    (port : Nat) : List (String × String) :=
  ((dictionary (derived ++ platformEnvironmentValues identifier appSlug port ++
    jobEnvironment)).entries.map fun e => (e.1, e.2)).insertionSort fun a b => stringLE a.1 b.1

/-! ## The job -/

/-- The checks of `render_nomad_job`, and the values it puts into the text. -/
def buildJob (platform : PlatformConfig) (a : JobArguments) (m : Manifest) : Except Error Job := do
  checkUuid "application ID" a.applicationId
  let placement := orDefault a.placementId a.applicationId
  checkUuid "placement ID" placement
  let markerId := orDefault a.routeMarker a.applicationId
  checkUuid "route marker" markerId
  checkSlug a.applicationSlug
  require (!(a.promoted && !a.staged)) (.validation "only a staged job can be route-promoted")
  require (100 ≤ a.routePriority && a.routePriority ≤ 1000000000)
    (.validation "route priority must be from 100 through 1000000000")
  checkOciDigestPin "application image" a.image
  require (100 ≤ a.cpuMhz)
    (.validation "scheduler CPU must be an integer of at least 100 MHz")
  require (64 ≤ a.memoryMib)
    (.validation "scheduler memory must be an integer of at least 64 MiB")
  checkCommit a.sourceCommit
  checkSha256Hex "recipe hash" a.recipeHash
  let aliases ← bindingAliases m
  let derived ← derivedEnvironment platform.domain m
  let excluded ← excludedKeys m
  let id := jobId a.applicationSlug a.candidate
  return {
    frame := {
      platform := platform
      placement := placement
      markerId := markerId
      imagePin := a.image
      cpuMhz := a.cpuMhz
      memoryMib := a.memoryMib
      checkedSource := a.sourceCommit
      checkedRecipe := a.recipeHash
      staged := a.staged
      promoted := a.promoted
      routePriority := a.routePriority
      forcePull := a.forcePull
    }
    values := {
      jobId := id
      hostname := hostname platform.domain a.applicationSlug
      previewHostname := previewHostname platform.domain a.applicationSlug
      variablePath := variablePath id
      port := m.port
      healthPath := m.healthPath
      bindingAliases := aliases
      excludedKeys := excluded
      platformEnvironment := platformEnvironment derived a.applicationId a.applicationSlug m.port
    }
  }

/-! ## The text -/

/-- Text as it stands. -/
def lit (s : String) : Piece := .lit s.toList

/-- A value. -/
def val (s : String) : Piece := .val s.toList

/-- `str(n)` -/
def intText (n : Int) : List Char := (JsonText.dumpInt n).map Char.ofNat

/-- Lines without values. -/
def fixed (lines : List String) : List Line := lines.map fun s => [lit s]

/-- A router: its name, its host and its priority. -/
structure Router where
  name : String
  host : String
  priority : Int
  deriving DecidableEq, Repr

/-- `routers` -/
def Job.routers (job : Job) : List Router :=
  (if job.frame.staged then
    [⟨job.values.jobId ++ "-preview", job.values.previewHostname, job.frame.routePriority⟩]
  else [⟨job.values.jobId, job.values.hostname, 100⟩]) ++
    if job.frame.promoted then
      [⟨job.values.jobId ++ "-promoted", job.values.hostname, job.frame.routePriority⟩]
    else []

/-- The tags of one router. -/
def routerTags (jobId : String) (r : Router) : List Line :=
  [[lit "        \"traefik.http.routers.", val r.name, lit ".entrypoints=web\","],
    [lit "        \"traefik.http.routers.", val r.name, lit ".rule=Host(\x60", val r.host,
      lit "\x60)\","],
    [lit "        \"traefik.http.routers.", val r.name, lit ".priority=",
      .lit (intText r.priority), lit "\","],
    [lit "        \"traefik.http.routers.", val r.name, lit ".service=", val jobId, lit "\","],
    [lit "        \"traefik.http.routers.", val r.name, lit ".middlewares=", val jobId,
      lit "-headers\","]]

/-- The tags of the service and of the middleware. -/
def serviceTags (f : JobFrame) (jobId : String) : List Line :=
  [[lit "        \"traefik.http.services.", val jobId,
      lit s!".loadbalancer.server.port={applicationHostPort}\","],
    [lit "        \"traefik.http.middlewares.", val jobId,
      lit "-headers.headers.contenttypenosniff=true\","],
    [lit "        \"traefik.http.middlewares.", val jobId,
      lit "-headers.headers.referrerpolicy=no-referrer\","],
    [lit "        \"traefik.http.middlewares.", val jobId,
      lit s!"-headers.headers.customresponseheaders.{deploymentRouteHeader}=", lit f.markerId,
      lit "\","]]

/-- The lines that set the platform's environment. -/
def environmentLines (entries : List (String × String)) : List Line :=
  entries.map fun e => [lit "        ", val e.1, lit " = ", .json e.2]

/-- The first line. -/
def Job.head (job : Job) : Line := [lit "job \"", val job.values.jobId, lit "\" \x7b"]

/-- The lines from the second one to the start of the group. -/
def Job.placementLines (job : Job) : List Line :=
  [[lit "  region      = \"", lit job.frame.platform.region, lit "\""],
    [lit "  datacenters = [\"", lit job.frame.platform.datacenter, lit "\"]"]] ++
  fixed [
    "  type        = \"service\"",
    "",
    "  constraint \x7b",
    "    attribute = \"$\x7bmeta.application_id\x7d\"",
    "    operator  = \"=\""] ++
  [[lit "    value     = \"", lit job.frame.placement, lit "\""]] ++
  fixed [
    "  \x7d",
    "",
    "  update \x7b",
    "    max_parallel      = 1",
    "    min_healthy_time  = \"10s\"",
    s!"    healthy_deadline  = \"{healthyDeadlineSeconds / 60}m\"",
    s!"    progress_deadline = \"{progressDeadlineSeconds / 60}m\"",
    "    auto_revert       = false",
    "    canary            = 0",
    "  \x7d",
    ""]

/-- The lines from the start of the group to the tags of the service. -/
def Job.networkLines (job : Job) : List Line :=
  fixed [
    "  group \"app\" \x7b",
    "    count          = 1",
    "    shutdown_delay = \"5s\"",
    "    network \x7b",
    "      mode = \"bridge\"",
    "      port \"http\" \x7b",
    s!"        static = {applicationHostPort}"] ++
  [[lit "        to     = ", .val (intText job.values.port)]] ++
  fixed [
    "      \x7d",
    "    \x7d",
    "",
    "    restart \x7b",
    "      attempts = 3",
    "      interval = \"5m\"",
    "      delay    = \"10s\"",
    "      mode     = \"fail\"",
    "    \x7d",
    "",
    "    service \x7b",
    "      provider     = \"nomad\""] ++
  [[lit "      name         = \"app-", val job.values.jobId, lit "\""]] ++
  fixed [
    "      port         = \"http\"",
    "      address_mode = \"host\"",
    "      tags = ["]

/-- The tags of the service. -/
def Job.tagLines (job : Job) : List Line :=
  [[lit "        \"", lit job.frame.platform.platformNamespace, lit ".platform=true\","]] ++
  fixed ["        \"traefik.enable=true\","] ++
  job.routers.flatMap (routerTags job.values.jobId) ++
  serviceTags job.frame job.values.jobId

/-- The lines from the end of the tags to the end of the health check's path. -/
def Job.checkLines (job : Job) : List Line :=
  fixed [
    "      ]",
    "      check \x7b",
    "        name     = \"http-ready\"",
    "        type     = \"http\""] ++
  [[lit "        path     = \"", val job.values.healthPath, lit "\""]]

/-- The lines from the health check's interval to the environment. -/
def Job.taskLines (job : Job) : List Line :=
  fixed [
    "        interval = \"10s\"",
    "        timeout  = \"3s\"",
    "      \x7d",
    "    \x7d",
    "",
    "    volume \"internal-ca\" \x7b",
    "      type      = \"host\""] ++
  [[lit "      source    = \"", lit job.frame.platform.platformNamespace, lit "-internal-ca\""]] ++
  fixed [
    "      read_only = true",
    "    \x7d",
    "",
    "    task \"app\" \x7b",
    "      driver = \"docker\"",
    "      config \x7b"] ++
  [[lit "        image           = \"", lit job.frame.imagePin, lit "\""],
    [lit "        extra_hosts     = [",
      .lit (jsonText (job.frame.platform.storageName ++ ":" ++
        job.frame.platform.storageAddress)),
      lit "]"]] ++
  fixed [
    "        ports           = [\"http\"]"] ++
  [[lit "        force_pull      = ", lit (if job.frame.forcePull then "true" else "false")]] ++
  fixed [
    "        readonly_rootfs = true",
    "        security_opt    = [\"no-new-privileges:true\"]",
    "        cap_drop        = [\"all\"]",
    "        cap_add         = [\"net_bind_service\"]",
    "        pids_limit      = 256",
    "      \x7d",
    "      volume_mount \x7b",
    "        volume      = \"internal-ca\"",
    "        destination = \"/platform-ca\"",
    "        read_only   = true",
    "      \x7d",
    "      env \x7b",
    "        HOST = \"0.0.0.0\""]

/-- The lines from the environment to the start of the template's text. -/
def Job.environmentLines (job : Job) : List Line :=
  Controller.environmentLines job.values.platformEnvironment ++
  fixed [
    "      \x7d",
    "      template \x7b",
    "        destination = \"secrets/app.env\"",
    "        env         = true",
    "        perms       = \"0600\"",
    "        change_mode = \"restart\""]

/-- `comparisons` -/
def comparisons : List String → Line
  | [] => []
  | [key] => [lit "(ne $key \"", val key, lit "\")"]
  | key :: keys => [lit "(ne $key \"", val key, lit "\") "] ++ comparisons keys

/-- `binding_aliases`, as lines; there is an empty one when there are no aliases. -/
def aliasLines (aliases : List (String × String)) : List Line :=
  if aliases.isEmpty then [[]]
  else aliases.flatMap fun a =>
    [[lit "\x7b\x7b $value := index . \"", val a.1, lit "\" \x7d\x7d"],
      [val a.2, lit "=\x7b\x7b $value | toJSON \x7d\x7d"]]

/-- The text of the template. -/
def Job.templateLines (job : Job) : List Line :=
  [[lit "\x7b\x7b with nomadVar \"", val job.values.variablePath, lit "\" \x7d\x7d"],
    [lit "\x7b\x7b range $key, $value := . \x7d\x7d\x7b\x7b if and "] ++
      comparisons job.values.excludedKeys ++
      [lit " \x7d\x7d\x7b\x7b $key \x7d\x7d=\x7b\x7b $value | toJSON \x7d\x7d"]] ++
  fixed ["\x7b\x7b end \x7d\x7d", "\x7b\x7b end \x7d\x7d"] ++
  aliasLines job.values.bindingAliases ++
  fixed ["\x7b\x7b end \x7d\x7d"]

/-- The lines after the template's text. -/
def Job.resourceLines (job : Job) : List Line :=
  fixed ["      \x7d", "      resources \x7b"] ++
  [[lit "        cpu    = ", .lit (intText job.frame.cpuMhz)],
    [lit "        memory = ", .lit (intText job.frame.memoryMib)]] ++
  fixed [
    "      \x7d",
    "      logs \x7b",
    "        max_files     = 3",
    "        max_file_size = 10",
    "      \x7d",
    "      kill_timeout = \"30s\"",
    "    \x7d",
    "  \x7d",
    "\x7d"]

/-- The lines between the first one and the template. -/
def Job.bodyLines (job : Job) : List Line :=
  job.placementLines ++ job.networkLines ++ job.tagLines ++ job.checkLines ++ job.taskLines ++
    job.environmentLines

/-- The line that starts the template's text. -/
def dataLine : Line := [lit "        data = <<EOH"]

/-- The line that ends the template's text. -/
def endLine : Line := [lit "EOH"]

/-- The lines after the first one. -/
def Job.restLines (job : Job) : List Line :=
  job.bodyLines ++ [dataLine] ++ job.templateLines ++ [endLine] ++ job.resourceLines

/-- `job` before its marker. -/
def Job.unmarked (job : Job) : List Char :=
  joinLines ((job.head :: job.restLines).map Line.text)

/-- `identity` -/
def Job.identity (sha256 : String → String) (job : Job) : String :=
  sha256 (String.ofList job.unmarked)

/-- `marker` -/
def Job.markerLines (job : Job) (identity : String) : List Line :=
  [[lit "  meta \x7b"],
    [lit s!"    {nomadCandidateJobShaKey} = \"", val identity, lit "\""],
    [lit s!"    {nomadCandidateImageKey} = \"", lit job.frame.imagePin, lit "\""],
    [lit s!"    {nomadRouteMarkerKey} = \"", lit job.frame.markerId, lit "\""],
    [lit s!"    {nomadSourceCommitKey} = \"", lit job.frame.checkedSource, lit "\""],
    [lit s!"    {nomadRecipeShaKey} = \"", lit job.frame.checkedRecipe, lit "\""],
    [lit "  \x7d"],
    []]

/-- The lines of the job with its marker, which stands after the first occurrence of the first
line: the start of the text. -/
def Job.lines (job : Job) (identity : String) : List Line :=
  job.head :: job.markerLines identity ++ job.restLines

/-- The text of the job with its marker. -/
def Job.text (sha256 : String → String) (job : Job) : String :=
  String.ofList (joinLines ((job.lines (job.identity sha256)).map Line.text))

/-- `render_nomad_job` -/
def renderNomadJob (sha256 : String → String) (platform : PlatformConfig) (a : JobArguments)
    (m : Manifest) : Except Error String := do
  let job ← buildJob platform a m
  return job.text sha256

end Controller
end OpenstackPlatform
