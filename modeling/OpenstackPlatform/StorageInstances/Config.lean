import OpenstackPlatform.StorageInstances.IpAddress

/-!
# The durable record of an instance

`config.json` of one instance directory, and the changes that the requests make to it, each as one
function of the record it changes.  The instance ID is the key under which the record is kept:
`save` writes to the directory that the ID names, so the identity check of `read` never fails.

A restore parks the allowlist in `pendingAllowIps` and closes the port (`beginRestore`); an `allow`
request in the meantime changes the parked list (`allow`), and the end of the restore puts it back
(`finishRestore`).
-/

namespace OpenstackPlatform
namespace StorageInstances

abbrev InstanceId := String

/-- The database of an instance. -/
inductive Engine where
  | postgres
  | mongo
  deriving DecidableEq, Repr

/-- How far the copy into an instance has come. -/
inductive MigrationState where
  | copying
  | verified
  | switched
  | aborted
  deriving DecidableEq, Repr

/-- The role that a source login had before its database was frozen. -/
inductive SourceRole where
  | readWrite
  | platformSizeBlocked
  deriving DecidableEq, Repr

/-- `config.json` -/
structure Config where
  applicationId : String
  engine : Engine
  port : Nat
  projectId : Nat
  quotas : Quotas
  acceptedQuotas : Quotas
  reservedQuotas : Quotas
  allowIps : List String := []
  migrationState : Option MigrationState := none
  desiredRunning : Bool := true
  projectInitialized : Bool := false
  readinessPending : Bool := false
  adminInitialized : Bool := false
  restorePending : Option String := none
  pendingAllowIps : Option (List String) := none
  restoreMemoryBytes : Option Nat := none
  restoredBackupSha256 : Option String := none
  sourceRole : Option SourceRole := none
  abortedOperationId : Option String := none
  deriving DecidableEq

/-- What an `allow` request does with the addresses it supplies. -/
inductive AllowMode where
  | add
  | remove
  | replace
  deriving DecidableEq, Repr

/-- The allowlist that an `allow` request leaves. -/
def AllowMode.change (mode : AllowMode) (previous supplied : List String) : List String :=
  sortedSet (match mode with
    | .replace => supplied
    | .add => previous ++ supplied
    | .remove => previous.filter fun value => !supplied.contains value)

namespace Config

/-- The memory that an instance reserves: the largest of its three records. -/
def memoryReservation (c : Config) : Nat :=
  max c.quotas.memoryBytes (max c.acceptedQuotas.memoryBytes c.reservedQuotas.memoryBytes)

/-- The connections that an instance reserves. -/
def connectionReservation (c : Config) : Nat :=
  max c.quotas.connections (max c.acceptedQuotas.connections c.reservedQuotas.connections)

/-- The size that an instance reserves. -/
def sizeReservation (c : Config) : Nat :=
  max c.quotas.sizeBytes (max c.acceptedQuotas.sizeBytes c.reservedQuotas.sizeBytes)

/-- The memory cap that `apply` assigns: the quota, or what a restore needs. -/
def memoryMax (c : Config) : Nat := max c.quotas.memoryBytes (c.restoreMemoryBytes.getD 0)

/-- The first record of an instance. -/
def create (owner : String) (engine : Engine) (port : Nat) (target : Quotas) : Config where
  applicationId := owner
  engine := engine
  port := port
  projectId := 10000 + port - 30000
  quotas := target
  acceptedQuotas := target
  reservedQuotas := target

/-- `limits`: the new limits are reserved beside the old ones. -/
def reserve (c : Config) (target : Quotas) : Config :=
  { c with reservedQuotas := c.reservedQuotas.larger target, quotas := target }

/-- `limits`: the new limits are applied. -/
def accept (c : Config) (target : Quotas) : Config :=
  { c with acceptedQuotas := target, reservedQuotas := target }

/-- `allow`, into the list that is parked during a restore; a missing list is a `KeyError`. -/
def allow (c : Config) (mode : AllowMode) (supplied : List String) :
    Except InstanceError Config :=
  if c.restorePending.isSome then
    match c.pendingAllowIps with
    | some previous => .ok { c with pendingAllowIps := some (mode.change previous supplied) }
    | none => .error .system
  else .ok { c with allowIps := mode.change c.allowIps supplied }

/-- The limits an instance has during a restore. -/
def restoreLimits (c : Config) : Quotas :=
  match c.engine with
  | .mongo => { c.quotas with memoryBytes := max c.quotas.memoryBytes GIB }
  | .postgres => c.quotas

/-- `restore-begin` -/
def beginRestore (c : Config) (backupSha256 : String) : Config :=
  { c with
    pendingAllowIps := if c.restorePending.isSome then c.pendingAllowIps else some c.allowIps
    allowIps := []
    restorePending := some backupSha256
    restoreMemoryBytes := some c.restoreLimits.memoryBytes
    reservedQuotas := { c.reservedQuotas with memoryBytes := c.restoreLimits.memoryBytes } }

/-- `restore-finish` -/
def finishRestore (c : Config) (backupSha256 : String) (state : Option MigrationState) : Config :=
  { c with
    restoredBackupSha256 := some backupSha256
    restorePending := none
    restoreMemoryBytes := none
    reservedQuotas := c.acceptedQuotas
    allowIps := c.pendingAllowIps.getD []
    pendingAllowIps := none
    migrationState := state }

/-- The limits that a copy needs. -/
def copyLimits (c : Config) : Quotas := { c.quotas with memoryBytes := GIB }

/-- `copy_instance`, before the copy. -/
def boost (c : Config) : Config :=
  { c with restoreMemoryBytes := some c.copyLimits.memoryBytes, reservedQuotas := c.copyLimits }

/-- `copy_instance`, after the copy. -/
def unboost (c : Config) : Config :=
  { c with restoreMemoryBytes := none, reservedQuotas := c.acceptedQuotas }

/-- `_copy_instance`: how far the copy has come. -/
def mark (c : Config) (state : MigrationState) : Config := { c with migrationState := some state }

/-- `abort-copy` -/
def abortCopy (c : Config) (operationId : String) : Config :=
  { c with abortedOperationId := some operationId, migrationState := some .aborted, allowIps := [] }

/-- `seal` -/
def sealed (c : Config) (operationId : Option String) : Except InstanceError Config :=
  if operationId.isSome && c.abortedOperationId = operationId then
    .error (.validation "migration was aborted; start a fresh intent")
  else if c.migrationState = some .verified ∨ c.migrationState = some .switched then
    .ok { c with migrationState := some .switched }
  else .error (.validation "instance copy has not been verified")

/-- `freeze`: the role is recorded once. -/
def freeze (c : Config) (role : SourceRole) : Config :=
  match c.sourceRole with
  | none => { c with sourceRole := some role }
  | some _ => c

/-- `allow` changes one of the two lists and nothing else. -/
theorem allow_eq_ok {c c' : Config} {mode : AllowMode} {supplied : List String}
    (h : c.allow mode supplied = .ok c') :
    ∃ ips parked, c' = { c with allowIps := ips, pendingAllowIps := parked } := by
  unfold allow at h
  split at h
  · split at h
    · cases h
      exact ⟨c.allowIps, _, rfl⟩
    · cases h
  · cases h
    exact ⟨_, c.pendingAllowIps, rfl⟩

/-- `seal` changes the state of the migration and nothing else. -/
theorem sealed_eq_ok {c c' : Config} {operationId : Option String}
    (h : c.sealed operationId = .ok c') : c' = { c with migrationState := some .switched } := by
  unfold sealed at h
  split at h
  · cases h
  · split at h
    · exact (Except.ok.inj h).symm
    · cases h

/-- `freeze` changes the role of the source and nothing else. -/
theorem freeze_eq (c : Config) (role : SourceRole) :
    ∃ sourceRole, c.freeze role = { c with sourceRole := sourceRole } := by
  unfold freeze
  split
  · exact ⟨_, rfl⟩
  · exact ⟨c.sourceRole, rfl⟩

end Config
end StorageInstances
end OpenstackPlatform
