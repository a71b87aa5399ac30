import OpenstackPlatform.StorageInstances.Manager

/-!
# What a request may do to the host

The threads of the manager share the host under an agreement.  Each owns the files and the assigned
limits of its instance (`View`); while it holds the shared lock, also what the other instances hold
and reserve stands still.  All keep `Exclusive`: a port belongs to one instance, from the first
record to the end of its deletion.

`Edit` lists the changes that requests make to a record, each with what was checked or assigned
before it, and `Change` the steps a thread takes on the host.  Everything that is proved about runs
of the manager is proved from these two.
-/

namespace OpenstackPlatform
namespace StorageInstances

open Library

/-- An instance holds a port: by its record or by an unfinished deletion. -/
def Holds (s : Host) (i : InstanceId) (port : Nat) : Prop :=
  (∃ c, s.configs.lookup i = some c ∧ c.port = port) ∨
    ∃ r, s.deletingRecords.lookup i = some r ∧ r.port = port

/-- A port of the range, with the project that goes with it. -/
def PortProject (port projectId : Nat) : Prop :=
  PORT_MIN ≤ port ∧ port ≤ PORT_MAX ∧ projectId = 10000 + port - 30000

/-- Ports belong to one instance each, and a deleted directory keeps the port reserved. -/
structure Exclusive (s : Host) : Prop where
  config : ∀ i c, s.configs.lookup i = some c → PortProject c.port c.projectId
  record : ∀ i r, s.deletingRecords.lookup i = some r → PortProject r.port r.projectId
  same : ∀ i c r, s.configs.lookup i = some c → s.deletingRecords.lookup i = some r →
    r.port = c.port
  trash : ∀ i c, s.trash.lookup i = some c → s.configs.lookup i = none ∧
    s.deletingRecords.lookup i = some ⟨c.port, c.projectId⟩
  unique : ∀ i j port, Holds s i port → Holds s j port → i = j

/-- What the other instances hold and reserve. -/
structure Others where
  memory : Nat
  connections : Nat
  ports : Nat → Prop

/-- What a thread owns: the files and the limits of its instance, and, while it holds the lock,
that the other instances stand still. -/
@[ext] structure View where
  config : Option Config
  record : Option DeletingRecord
  trash : Option Config
  properties : Option UnitProperties
  limit : Option ProjectLimit
  others : Option Others

/-- What the instances other than `i` hold and reserve. -/
def Host.rest (s : Host) (i : InstanceId) : Others where
  memory := Table.sumOver (fun _ c => c.memoryReservation) (s.configs.erase i)
  connections := Table.sumOver (fun _ c => c.connectionReservation) (s.configs.erase i)
  ports port := ∃ j, j ≠ i ∧ Holds s j port

/-- What the thread of an instance owns of the host. -/
def view (i : InstanceId) (s : Host) : View where
  config := s.configs.lookup i
  record := s.deletingRecords.lookup i
  trash := s.trash.lookup i
  properties := s.properties i
  limit := (s.configs.lookup i).bind fun c => s.limits c.projectId
  others := if s.lock = some i then some (s.rest i) else none

/-- The capacity check, on what the others reserve. -/
structure Fits (platform : Platform) (others : Others) (target : Quotas) (extra : Nat) : Prop where
  memory : others.memory + target.memoryBytes ≤ platform.memoryBudget + extra
  connections : others.connections + target.connections ≤ CONNECTION_BUDGET

section Capacity

variable {platform : Platform} {i : InstanceId} {target : Quotas} {maintenance : Bool} {s : Host}

theorem total_others (figure : Config → Nat) (s : Host) (i : InstanceId) :
    total figure (s.others i) = Table.sumOver (fun _ c => figure c) (s.configs.erase i) := by
  unfold Host.others
  rw [Table.entries_filter_ne]
  simp only [total, Table.sumOver, Table.sumEntries, List.foldr_map]

/-- A check that passes leaves room for the request beside what the others reserve. -/
theorem fits_of_capacity (h : capacity platform i target maintenance s = .ok ()) :
    Fits platform (s.rest i) target (if maintenance then MAINTENANCE_MEMORY else 0) := by
  unfold capacity at h
  by_cases hmemory : platform.memoryBudget + (if maintenance then MAINTENANCE_MEMORY else 0) <
      total Config.memoryReservation (s.others i) + target.memoryBytes
  · rw [if_pos hmemory] at h
    cases h
  · rw [if_neg hmemory] at h
    by_cases hconnections : CONNECTION_BUDGET <
        total Config.connectionReservation (s.others i) + target.connections
    · rw [if_pos hconnections] at h
      cases h
    · rw [total_others] at hmemory hconnections
      exact ⟨Nat.le_of_not_lt hmemory, Nat.le_of_not_lt hconnections⟩

end Capacity

/-- The requests that mark a record: all but `allow`, which saves its list only. -/
def Request.marks : Request → Bool
  | .allow _ _ _ => false
  | _ => true

/-- The requests that create an instance. -/
def Request.creates : Request → Bool
  | .create _ _ _ _ _ => true
  | .restoreCreate _ _ _ _ _ _ => true
  | _ => false

/-- The requests that delete an instance. -/
def Request.removes : Request → Bool
  | .remove _ => true
  | _ => false

/-- A request that applies a record: `limits` does once the record has the limits it names. -/
def Request.applies (quotas : Quotas) : Request → Prop
  | .limits target _ => quotas = target
  | .restoreBegin _ => False
  | .restoreFinish _ => False
  | _ => True

/-- What a request assigns to the unit of an instance: what its record says, the memory of a
restore once that is recorded, or the memory of the record at the end of a restore. -/
inductive Assigns : Request → Config → UnitProperties → Prop where
  | applied {q : Request} {c : Config} : q.applies c.quotas → Assigns q c c.unitProperties
  | begun {backupSha256} {c : Config} :
      Assigns (.restoreBegin backupSha256) (c.beginRestore backupSha256)
        ⟨c.restoreLimits.memoryBytes, none⟩
  | finished {state} {c : Config} : Assigns (.restoreFinish state) c ⟨c.quotas.memoryBytes, none⟩

/-- The changes that a request makes to a record, with what it owns of the host when it makes
them. -/
inductive Edit (platform : Platform) : Request → View → Config → Config → Prop where
  /-- The marks that no limit and no allowlist depends on. -/
  | flags {q v c} (running project ready admin : Bool) : q.marks →
      Edit platform q v c { c with
        desiredRunning := running, projectInitialized := project, readinessPending := ready,
        adminInitialized := admin }
  /-- The allowlist of `create`. -/
  | created {owner engine quotas allowIps reservations v c ips} :
      addresses allowIps = .ok ips →
      Edit platform (.create owner engine quotas allowIps reservations) v c
        { c with desiredRunning := true, allowIps := ips }
  /-- The allowlist of `restore-create`, where there is none. -/
  | restoreCreated {owner engine quotas allowIps reservations port v c ips} :
      addresses allowIps = .ok ips → c.allowIps = [] →
      Edit platform (.restoreCreate owner engine quotas allowIps reservations port) v c
        { c with allowIps := ips }
  /-- `limits` reserves. -/
  | reserved {quotas reservations v c others} :
      v.others = some others → Fits platform others quotas 0 →
      Edit platform (.limits quotas reservations) v c (c.reserve quotas)
  /-- `limits` accepts what it assigned. -/
  | accepted {quotas reservations v c} :
      c.quotas = quotas → v.properties = some c.unitProperties →
      v.limit = some c.projectLimit →
      Edit platform (.limits quotas reservations) v c (c.accept quotas)
  /-- `allow` -/
  | allowed {applicationId values mode supplied v c c'} :
      addresses values = .ok supplied → c.allow mode supplied = .ok c' →
      Edit platform (.allow applicationId values mode) v c c'
  /-- `restore-begin` -/
  | restoreBegun {backupSha256 v c others} :
      c.restoredBackupSha256 ≠ some backupSha256 → v.others = some others → Fits platform others c.restoreLimits MAINTENANCE_MEMORY →
      Edit platform (.restoreBegin backupSha256) v c (c.beginRestore backupSha256)
  /-- `restore-finish`, after the normal memory cap was assigned. -/
  | restoreFinished {backupSha256 state v c} :
      c.restorePending = some backupSha256 →
      (v.properties.map UnitProperties.memoryMax) = some c.quotas.memoryBytes →
      Edit platform (.restoreFinish state) v c (c.finishRestore backupSha256 state)
  /-- `copy` takes more memory. -/
  | boosted {arguments v c others} :
      c.engine = .mongo → c.quotas.memoryBytes < GIB → v.others = some others →
      Fits platform others c.copyLimits MAINTENANCE_MEMORY →
      Edit platform (.copy arguments) v c c.boost
  /-- `copy` gives it back. -/
  | unboosted {arguments v c} :
      c.engine = .mongo → c.quotas.memoryBytes < GIB →
      Edit platform (.copy arguments) v c c.unboost
  /-- `copy` marks how far it came; what was verified is not copied again. -/
  | copied {arguments v c state} :
      c.migrationState ≠ some .verified → c.migrationState ≠ some .switched →
      Edit platform (.copy arguments) v c (c.mark state)
  /-- `freeze` -/
  | frozen {role v c} : Edit platform (.freeze role) v c (c.freeze role)
  /-- `abort-copy` -/
  | aborted {operationId v c} :
      Edit platform (.abortCopy operationId) v c (c.abortCopy operationId)
  /-- `seal` -/
  | sealed {operationId v c c'} : c.sealed operationId = .ok c' →
      Edit platform (.sealCopy operationId) v c c'

/-- The steps of the thread of one instance, by the change or the command they are. -/
inductive Change (platform : Platform) (i : InstanceId) (q : Request) (s : Host) :
    Write ⊕ Command → Host → Prop where
  /-- Nothing that a thread owns changes. -/
  | silent {l s'} : (∀ j c, l ≠ .inl (.save j c)) → s'.configs = s.configs →
      s'.deletingRecords = s.deletingRecords → s'.trash = s.trash →
      s'.properties = s.properties →
      (∀ project, 10000 ≤ project → s'.limits project = s.limits project) →
      Change platform i q s l s'
  /-- A new instance. -/
  | create {owner engine port target} : q.creates = true →
      s.configs.lookup i = none → s.deletingRecords.lookup i = none → s.trash.lookup i = none →
      (∀ j, ¬ Holds s j port) → PORT_MIN ≤ port → port ≤ PORT_MAX →
      Fits platform (s.rest i) target 0 →
      Change platform i q s (.inl (.save i (.create owner engine port target)))
        (s.put i (.create owner engine port target))
  /-- A change to the record. -/
  | edit {c c'} : s.configs.lookup i = some c → Edit platform q (view i s) c c' →
      Change platform i q s (.inl (.save i c')) (s.put i c')
  /-- The limits of the project are assigned. -/
  | limit {c} : s.configs.lookup i = some c → q.applies c.quotas →
      Change platform i q s (.inr (.limitProject c.projectId c.projectLimit))
        { s with limits := assign s.limits c.projectId (some c.projectLimit) }
  /-- The properties of the unit are assigned. -/
  | properties {c new} : s.configs.lookup i = some c → Assigns q c new →
      Change platform i q s (.inr (.setProperty i new))
        { s with properties := assign s.properties i (some (new.over (s.properties i))) }
  /-- The deletion is recorded. -/
  | record {c} : s.configs.lookup i = some c →
      Change platform i q s (.inl (.deletingRecord i ⟨c.port, c.projectId⟩))
        { s with deletingRecords := s.deletingRecords.insert i ⟨c.port, c.projectId⟩ }
  /-- The directory is renamed. -/
  | rename {c s'} : q.removes = true → s.configs.lookup i = some c →
      s.deletingRecords.lookup i = some ⟨c.port, c.projectId⟩ → Write.exec s (.rename i) = .ok s' →
      Change platform i q s (.inl (.rename i)) s'
  /-- The deleted directory is gone. -/
  | trash : Change platform i q s (.inr (.removeTrash i)) { s with trash := s.trash.erase i }
  /-- The deletion is done. -/
  | unlink : s.configs.lookup i = none → s.trash.lookup i = none →
      Change platform i q s (.inl (.unlink i))
        { s with deletingRecords := s.deletingRecords.erase i }

/-- The agreement between the threads of the manager. -/
def agreement (platform : Platform) : Protocol InstanceId Request Host Write Command View where
  view := view
  Inv := Exclusive
  change := Change platform

end StorageInstances
end OpenstackPlatform
