import OpenstackPlatform.StorageInstances.Host

/-!
# The instance manager

`storage_instances.py`: the requests that `Manager.dispatch` serves, step by step, each as a
`Process` over the host.  A request runs under the lock of its own instance, so there is at most one
thread for each instance; within it, `locked` takes the lock that all instances share.

The fields of a request have the types the source asks for, and identifiers are canonical, so the
checks for missing, unknown and ill-typed fields are not here; the other checks of values are.  Requests that change nothing
(`ping`, `list`, `observe`, `credentials`, `cancel-copy`) are left out, and so is what `observe`
reports at the end of the others.  A database session that is retried until a deadline
(`bootstrap_mongo`, `wait_ready`) is one question, and so are the dump and the import of a copy and
the comparison after them.  A start of the manager applies every record again; `restore` is that for
one instance.
-/

namespace OpenstackPlatform
namespace StorageInstances

open Library

/-- A process of the manager. -/
abbrev Action (α : Type) := Process Host Write Command Nat InstanceError α

/-- The disk reservations that a request carries. -/
structure Reservations where
  databaseBytes : Nat
  garageBytes : Nat
  deriving DecidableEq

/-- The fields of a `copy` request. -/
structure CopyArguments where
  database : String
  seconds : Nat
  operationId : String
  applicationLogin : String
  applicationPassword : String
  deriving DecidableEq

/-- The requests, by their `action`. -/
inductive Request where
  | create (applicationId : String) (engine : Engine) (quotas : Quotas) (allowIps : List String)
      (reservations : Reservations)
  | restoreCreate (applicationId : String) (engine : Engine) (quotas : Quotas)
      (allowIps : List String) (reservations : Reservations) (port : Nat)
  | remove (deleteData : Bool)
  | limits (quotas : Quotas) (reservations : Reservations)
  | allow (applicationId : String) (addresses : List String) (mode : AllowMode)
  | start
  | stop
  | restoreBegin (backupSha256 : String)
  | restoreFinish (migrationState : Option MigrationState)
  | copy (arguments : CopyArguments)
  | freeze (sourceRole : SourceRole)
  | abortCopy (operationId : String)
  | sealCopy (operationId : Option String)
  | restore
  deriving DecidableEq

/-- Raise unless a condition holds. -/
def require (condition : Bool) (error : InstanceError) : Action Unit :=
  if condition then pure () else Process.throw error

/-- Run a process only if a condition holds. -/
def given (condition : Bool) (p : Action Unit) : Action Unit :=
  if condition then p else pure ()

/-- One process for each element of a list, in order. -/
def forEach {α : Type} : List α → (α → Action Unit) → Action Unit
  | [], _ => pure ()
  | a :: as, f => do
    f a
    forEach as f

/-- Run a command for its effect. -/
def command (c : Command) : Action Unit := do
  let _ ← Process.query c
  pure ()

/-- `Manager.save` -/
def save (i : InstanceId) (config : Config) : Action Unit := Process.commit (.save i config)

/-- `Manager.locked` -/
def locked {α : Type} (i : InstanceId) (p : Action α) : Action α := do
  Process.commit (.acquire i)
  p.andFinally (Process.commit .release)

/-- `Manager.read` -/
def read (i : InstanceId) : Action Config :=
  Process.inspect fun s =>
    match s.configs.lookup i with
    | some config => .ok config
    | none => .error .absent

variable (platform : Platform)

/-- The sum of a figure over records. -/
def total (figure : Config → Nat) (configs : List Config) : Nat :=
  configs.foldr (fun config n => figure config + n) 0

/-- `Manager.capacity` -/
def capacity (i : InstanceId) (target : Quotas) (maintenance : Bool) (s : Host) :
    Except InstanceError Unit :=
  if platform.memoryBudget + (if maintenance then MAINTENANCE_MEMORY else 0) <
      total Config.memoryReservation (s.others i) + target.memoryBytes then
    .error (.capacity "MEMORY_BUDGET_EXCEEDED"
      "instance memory caps exceed the configured host budget")
  else if CONNECTION_BUDGET <
      total Config.connectionReservation (s.others i) + target.connections then
    .error (.capacity "CONNECTION_BUDGET_EXCEEDED"
      "instance connection caps exceed the 2000-slot host budget")
  else .ok ()

/-- The shared directories with their projects and caps. -/
def projects (garage : Nat) : List (String × Nat × Nat) :=
  [("object-storage", 9001, garage), ("registry", 9002, 100 * GIB), ("postgres", 9003, 32 * GIB),
    ("mongodb", 9004, 32 * GIB), ("instance-migrations", 9005, 16 * GIB)]

/-- The refusal of `reserve_disk`. -/
def diskBudgetExceeded : InstanceError :=
  .capacity "DISK_BUDGET_EXCEEDED" "hard disk reservations exceed 85% of the data volume"

/-- The high-water mark of the object store that `reserve_disk` keeps. -/
def garageHighWater (budget : Option DiskBudget) (values : Reservations) : Nat :=
  max ((budget.map DiskBudget.garageBytes).getD 0) (values.garageBytes + 16 * GIB)

/-- Whether the reservations fit 85% of the data volume. -/
def diskFits (budget : Option DiskBudget) (values : Reservations) : Bool :=
  values.databaseBytes + garageHighWater budget values + 181 * GIB ≤
    platform.volumeBytes * 85 / 100

/-- `Manager.reserve_disk` -/
def reserveDisk (values : Reservations) : Action Unit := do
  let previous ← Process.get Host.diskBudget
  let garage := garageHighWater previous values
  require (diskFits platform previous values) diskBudgetExceeded
  let initialized := (previous.map DiskBudget.initialized).getD false
  Process.commit (.diskBudget ⟨garage, initialized⟩)
  given (!initialized) <| forEach (projects garage) fun (name, _, size) => do
    let used ← Process.query (.du (.shared name))
    require (used + 384 * MIB ≤ size) (.capacity "DISK_BUDGET_EXCEEDED"
      "shared directory exceeds initial project cap; enlarge its reservation before rollout")
  forEach (projects garage) fun (name, project, size) => do
    given (!initialized) <| command (.assignProject (.shared name) project)
    command (.limitProject project ⟨size / 1024, none⟩)
  given (!initialized) <| Process.commit (.diskBudget ⟨garage, true⟩)

/-- `Manager.firewall` -/
def firewall : Action Unit := do
  let script ← Process.inspect fun s => firewallScript platform s.records
  command (.nft script)

/-- `Manager.check_reduction` -/
def checkReduction (i : InstanceId) (config : Config) (size : Nat) : Action Unit := do
  let physical ← Process.query (.du (.data i))
  let margin := (match config.engine with | .postgres => 384 | .mongo => 128) * MIB
  require (physical + margin ≤ hardQuota size)
    (.capacity "SIZE_BELOW_USAGE" "hard quota would fall below physical data plus headroom")

/-- The limit that `apply` gives to the project of an instance. -/
def Config.projectLimit (config : Config) : ProjectLimit :=
  ⟨hardQuota config.quotas.sizeBytes / 1024, some (max 4096 (config.quotas.sizeBytes / 32768))⟩

/-- The properties that `apply` gives to the unit of an instance. -/
def Config.unitProperties (config : Config) : UnitProperties :=
  ⟨config.memoryMax, some config.quotas.cpuMillicores⟩

/-- `apply`: the data directory becomes a project once. -/
def initializeProject (i : InstanceId) (config : Config) : Action Config :=
  if config.projectInitialized then pure config
  else do
    command (.assignProject (.data i) config.projectId)
    save i { config with projectInitialized := true }
    pure { config with projectInitialized := true }

/-- `apply`: the unit starts, or restarts, if it is meant to run; a lost restart or reply replays
its readiness gate. -/
def startUnit (i : InstanceId) (config : Config) (restart : Bool) : Action Config :=
  if config.desiredRunning then do
    save i { config with readinessPending := true }
    command (.systemctl (if restart then .restart else .start) i)
    pure { config with readinessPending := true }
  else pure config

/-- `Manager.apply`; it returns the record as it left it. -/
def apply (i : InstanceId) (config : Config) (restart : Bool) : Action Config := do
  forEach ["storage.pem", "storage-key.pem", "internal-ca.pem", "mongodb-combined.pem"]
    fun name => command (.install i name)
  command (.install i "pg_hba.conf")
  command (.chown i "data")
  let config ← initializeProject i config
  command (.limitProject config.projectId config.projectLimit)
  command (.dropIn i "limits.conf")
  command (.dropIn i "shutdown.conf")
  firewall platform
  command .daemonReload
  command (.setProperty i config.unitProperties)
  startUnit i config restart

/-! ## Deletion -/

/-- `Manager.cleanup_deleted` -/
def cleanupDeleted (i : InstanceId) : Action Unit := do
  let trash ← Process.get fun s => s.trash.lookup i
  given trash.isSome <| command (.removeTrash i)
  -- The port and the project stay reserved until all data is gone.
  locked i (Process.commit (.unlink i))

/-- `remove`: the instance is not to run again. -/
def removeIntent (i : InstanceId) : Action (Option Config) := do
  let config ← Process.get fun s => s.configs.lookup i
  match config with
  | some config => do
    save i { config with desiredRunning := false }
    pure (some { config with desiredRunning := false })
  | none => pure none

/-- `remove`: the directory moves away, and a record keeps its port and project. -/
def moveAway (i : InstanceId) : Option Config → Action Unit
  | some config => do
    Process.commit (.deletingRecord i ⟨config.port, config.projectId⟩)
    Process.commit (.rename i)
  | none => pure ()

/-- `Manager.remove` -/
def remove (i : InstanceId) (deleteData : Bool) : Action Unit := do
  require deleteData (.validation "instance deletion requires explicit deleteData")
  let config ← locked i (removeIntent i)
  command (.systemctl .disable i)
  locked i do
    moveAway i config
    firewall platform
  cleanupDeleted i
  command (.systemctl .revert i)

/-! ## Creation -/

/-- The first free port. -/
def freePort (occupied : List Nat) : Option Nat :=
  (List.range' PORT_MIN (PORT_MAX + 1 - PORT_MIN)).find? fun port => !occupied.contains port

/-- The port of a new instance: the one a restore asks for, or the first free one. -/
def choosePort (wanted : Option Nat) (occupied : List Nat) : Except InstanceError Nat :=
  match wanted with
  | some port =>
    if occupied.contains port then .error (.validation "restore port belongs to another instance")
    else .ok port
  | none =>
    match freePort occupied with
    | some port => .ok port
    | none => .error (.validation "instance ports are exhausted")

/-- The record that a creation works on: the one that exists, if it agrees with the request, or a
new one. -/
def creationRecord (i : InstanceId) (owner : String) (engine : Engine) (target : Quotas)
    (wanted : Option Nat) : Action Config := do
  let existing ← Process.get fun s => s.configs.lookup i
  match existing with
  | some config => do
    let conflict := config.applicationId ≠ owner || config.engine ≠ engine ||
      (wanted.isNone && config.quotas ≠ target) || (wanted.isSome && some config.port ≠ wanted)
    require (!conflict)
      (.validation "instance creation intent conflicts with durable identity")
    pure config
  | none => do
    let port ← Process.inspect fun s => choosePort wanted s.occupied
    let config := Config.create owner engine port target
    save i config
    Process.commit (.secret i)
    command (.chown i "admin-password")
    pure config

/-- The credential of an instance, made again only while there is no data. -/
def ensureSecret (i : InstanceId) : Action Unit := do
  let secret ← Process.get fun s => s.secrets i
  given (!secret) do
    let populated ← Process.get fun s => s.populated i
    require (!populated) (.validation "instance credential is missing for existing data")
    Process.commit (.secret i)
    command (.chown i "admin-password")

/-- The record with the allowlist of a creation; `restore-create` keeps one that is there. -/
def openedRecord (config : Config) (allowIps : List String) (wanted : Option Nat) :
    Except InstanceError Config :=
  if wanted.isNone then
    (addresses allowIps).map fun ips => { config with desiredRunning := true, allowIps := ips }
  else if config.allowIps.isEmpty then
    (addresses allowIps).map fun ips => { config with allowIps := ips }
  else .ok config

/-- `create` (no wanted port) and `restore-create`, under the shared lock. -/
def createLocked (i : InstanceId) (owner : String) (engine : Engine) (quotas : Quotas)
    (allowIps : List String) (reservations : Reservations) (wanted : Option Nat) :
    Action Unit := do
  require (wanted.all fun port => PORT_MIN ≤ port && port ≤ PORT_MAX)
    (.validation "restore port is invalid")
  let deleting ← Process.get fun s =>
    (s.deletingRecords.lookup i).isSome || (s.trash.lookup i).isSome
  require (!deleting)
    (.validation "finish instance deletion replay before recreating its identity")
  let target ← Process.lift (validateLimits quotas)
  Process.inspect (capacity platform i target false)
  reserveDisk platform reservations
  let config ← creationRecord i owner engine target wanted
  ensureSecret i
  let config ← Process.lift (openedRecord config allowIps wanted)
  save i config
  let _ ← apply platform i config false

/-- `Manager.bootstrap_mongo` -/
def bootstrapMongo (i : InstanceId) (config : Config) : Action Unit :=
  given (!config.adminInitialized) do
    (command (.bootstrapMongo i)).tryCatch fun _ =>
      Process.throw (.validation "MongoDB admin initialization requires reconciliation")
    locked i do
      save i { config with adminInitialized := true }
      firewall platform

/-- The end of `dispatch`: the readiness gate. -/
def awaitReady (i : InstanceId) : Action Unit := do
  let config ← read i
  given (config.desiredRunning && config.readinessPending) do
    (command (.probe i)).tryCatch fun _ =>
      Process.throw (.notReady "instance database did not become reachable")
    locked i do
      let config ← read i
      save i { config with readinessPending := false }

/-- `create` and `restore-create` -/
def creation (i : InstanceId) (owner : String) (engine : Engine) (quotas : Quotas)
    (allowIps : List String) (reservations : Reservations) (wanted : Option Nat) :
    Action Unit := do
  locked i (createLocked platform i owner engine quotas allowIps reservations wanted)
  let config ← read i
  given (config.engine = .mongo) (bootstrapMongo platform i config)
  awaitReady i

/-! ## Limits -/

/-- `limits`, under the shared lock. -/
def limitsLocked (i : InstanceId) (quotas : Quotas) (reservations : Reservations) :
    Action Unit := do
  let config ← read i
  let target ← Process.lift (validateLimits quotas)
  let reduction := decide (target.sizeBytes < config.quotas.sizeBytes)
  given reduction (checkReduction i config target.sizeBytes)
  Process.inspect (capacity platform i target false)
  reserveDisk platform reservations
  given reduction do
    -- Quiesce only an admitted reduction, then account for writes since the live check.
    command (.systemctl .stop i)
    (checkReduction i config target.sizeBytes).tryCatch fun error => do
      given config.desiredRunning (command (.systemctl .start i))
      Process.throw error
  save i (config.reserve target)
  given (config.acceptedQuotas ≠ target) do
    let restart := config.acceptedQuotas.connections ≠ target.connections ||
      config.acceptedQuotas.memoryBytes ≠ target.memoryBytes
    let config' ← apply platform i (config.reserve target) restart
    save i (config'.accept target)

/-- `limits` -/
def limits (i : InstanceId) (quotas : Quotas) (reservations : Reservations) : Action Unit := do
  locked i (limitsLocked platform i quotas reservations)
  awaitReady i

/-! ## Network and lifecycle -/

/-- `allow` -/
def allow (i : InstanceId) (applicationId : String) (values : List String) (mode : AllowMode) :
    Action Unit :=
  locked i do
    let config ← read i
    require (config.applicationId = applicationId)
      (.validation "instance network owner does not match")
    let supplied ← Process.lift (addresses values)
    let config ← Process.lift (config.allow mode supplied)
    save i config
    firewall platform

/-- `start` -/
def start (i : InstanceId) : Action Unit := do
  locked i do
    let config ← read i
    save i { config with desiredRunning := true, readinessPending := true }
    firewall platform
    command (.systemctl .start i)
  awaitReady i

/-- `stop` -/
def stop (i : InstanceId) : Action Unit :=
  locked i do
    let config ← read i
    save i { config with desiredRunning := false }
    command (.systemctl .stop i)

/-! ## Restore -/

/-- `restore-begin`, under the shared lock; it returns the limits to assign, unless the backup was
restored before. -/
def restoreBeginLocked (i : InstanceId) (backupSha256 : String) : Action (Option Quotas) := do
  let config ← read i
  if config.restoredBackupSha256 = some backupSha256 then pure none
  else do
    Process.inspect (capacity platform i config.restoreLimits true)
    save i (config.beginRestore backupSha256)
    firewall platform
    pure (some config.restoreLimits)

/-- `restore-begin` -/
def restoreBegin (i : InstanceId) (backupSha256 : String) : Action Unit := do
  require (backupSha256.length = 64) (.validation "restore checkpoint fields are invalid")
  let limits ← locked i (restoreBeginLocked platform i backupSha256)
  match limits with
  | none => pure ()
  | some limits => command (.setProperty i ⟨limits.memoryBytes, none⟩)

/-- The record of an instance in a restore, with the backup that is restored. -/
def pendingRestore (i : InstanceId) : Action (Config × String) := do
  let config ← read i
  match config.restorePending with
  | some completed => pure (config, completed)
  | none => Process.throw (.validation "restore checkpoint is absent")

/-- `restore-finish` -/
def restoreFinish (i : InstanceId) (state : Option MigrationState) : Action Unit := do
  require (state = none || state = some .switched)
    (.validation "restore completion fields are invalid")
  let (config, completed) ← locked i (pendingRestore i)
  -- The port stays closed until the normal memory cap is confirmed.
  command (.setProperty i ⟨config.quotas.memoryBytes, none⟩)
  locked i do
    save i (config.finishRestore completed state)
    firewall platform

/-! ## Migration -/

/-- The checks of `_copy_instance` on the fields of the request. -/
def checkCopy (config : Config) (arguments : CopyArguments) : Except InstanceError Unit :=
  let hex := fun c : Char => c.isDigit || ('a' ≤ c && c ≤ 'f')
  let database := arguments.database.toList
  let owner := "u_".toList ++ (config.applicationId.toList.filter (· ≠ '-')).take 20 ++ ['_']
  let login := arguments.applicationLogin.toList
  let password := arguments.applicationPassword
  if !(120 ≤ arguments.seconds && arguments.seconds ≤ 7200 && database.length = 22 &&
      database.take 2 = "p_".toList && (database.drop 2).all hex) then
    .error (.validation "migration source database is invalid")
  else if !(login.take owner.length = owner && (login.drop owner.length).length = 8 &&
      (login.drop owner.length).all hex && 1 ≤ password.utf8ByteSize &&
      password.utf8ByteSize ≤ 1024 && !password.toList.contains (Char.ofNat 0)) then
    .error (.validation "migration application credential is invalid")
  else if config.abortedOperationId = some arguments.operationId then
    .error (.validation "migration was aborted; start a fresh intent")
  else .ok ()

/-- `_copy_instance`.  The dump, the import and the comparison are the environment's: a comparison
that prints 0 found a difference. -/
def copyData (i : InstanceId) (config : Config) (arguments : CopyArguments) : Action Unit := do
  Process.lift (checkCopy config arguments)
  if config.migrationState = some .verified ∨ config.migrationState = some .switched then
    -- Publication may have started; never drop or copy this instance again.
    pure ()
  else do
    save i (config.mark .copying)
    command (.transfer i)
    let equal ← Process.query (.compare i)
    require (equal ≠ 0)
      (.validation "instance copy verification failed; old database remains intact")
    save i (config.mark .verified)

/-- `copy_instance`.  The record in memory is the one in the file, for only this thread writes it,
so the end of the copy reads it again. -/
def copyInstance (i : InstanceId) (config : Config) (arguments : CopyArguments) : Action Unit :=
  if config.engine = .mongo ∧ config.quotas.memoryBytes < GIB then do
    let config ← locked i do
      Process.inspect (capacity platform i config.copyLimits true)
      save i config.boost
      apply platform i config.boost false
    (copyData i config arguments).andFinally <| locked i do
      let config ← read i
      save i config.unboost
      let _ ← apply platform i config.unboost false
  else copyData i config arguments

/-- `copy` -/
def copy (i : InstanceId) (arguments : CopyArguments) : Action Unit := do
  let config ← read i
  copyInstance platform i config arguments

/-- `freeze` -/
def freeze (i : InstanceId) (role : SourceRole) : Action Unit :=
  locked i do
    let config ← read i
    given config.sourceRole.isNone (save i (config.freeze role))

/-- `abort-copy` -/
def abortCopy (i : InstanceId) (operationId : String) : Action Unit :=
  locked i do
    let config ← read i
    save i (config.abortCopy operationId)
    firewall platform

/-- `seal` -/
def sealCopy (i : InstanceId) (operationId : Option String) : Action Unit :=
  locked i do
    let config ← read i
    let config ← Process.lift (config.sealed operationId)
    save i config

/-- `Manager.restore`, for one instance; a failure is logged. -/
def restore (i : InstanceId) : Action Unit :=
  locked i do
    let config ← read i
    let _ ← (apply platform i config false).tryCatch fun _ => pure config
    firewall platform

/-- `Manager.dispatch` -/
def dispatch (i : InstanceId) : Request → Action Unit
  | .create owner engine quotas allowIps reservations =>
    creation platform i owner engine quotas allowIps reservations none
  | .restoreCreate owner engine quotas allowIps reservations port =>
    creation platform i owner engine quotas allowIps reservations (some port)
  | .remove deleteData => remove platform i deleteData
  | .limits quotas reservations => limits platform i quotas reservations
  | .allow applicationId values mode => allow platform i applicationId values mode
  | .start => start platform i
  | .stop => stop i
  | .restoreBegin backupSha256 => restoreBegin platform i backupSha256
  | .restoreFinish state => restoreFinish platform i state
  | .copy arguments => copy platform i arguments
  | .freeze role => freeze i role
  | .abortCopy operationId => abortCopy platform i operationId
  | .sealCopy operationId => sealCopy i operationId
  | .restore => restore platform i

/-- The manager as a service: one thread for each instance. -/
def service : Service InstanceId Request Host Write Command Nat InstanceError Outcome Unit where
  setting := setting
  program := dispatch platform
  stopped := Host.stopped

end StorageInstances
end OpenstackPlatform
