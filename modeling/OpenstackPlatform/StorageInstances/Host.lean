import OpenstackPlatform.Library.Table
import OpenstackPlatform.Library.Threads
import OpenstackPlatform.StorageInstances.Firewall

/-!
# The storage host

What the manager leaves on the host: the files under `instances/`, the limits last assigned to
`systemd` and XFS, and the file lock that the requests share.  `Write` is one durable change to the
files, `Command` one command or database session; a command may fail before or after it took effect
(`Outcome`).

A stop of the manager releases the lock and changes nothing else.
-/

namespace OpenstackPlatform
namespace StorageInstances

open Library

def PORT_MIN : Nat := 30000
def PORT_MAX : Nat := 30999

/-- `<instance>.deleting.json`: the port and the project that a deletion still holds. -/
structure DeletingRecord where
  port : Nat
  projectId : Nat
  deriving DecidableEq

/-- `disk-budget.json` -/
structure DiskBudget where
  garageBytes : Nat
  initialized : Bool
  deriving DecidableEq

/-- The `xfs_quota` limits of a project. -/
structure ProjectLimit where
  bhardKib : Nat
  ihard : Option Nat
  deriving DecidableEq

/-- The runtime properties of a unit. -/
structure UnitProperties where
  memoryMax : Nat
  cpuMillicores : Option Nat
  deriving DecidableEq

/-- The host.  `trash` holds the `.deleting` directories, each with the record it had when it was
renamed; `populated` are the instances whose data directory is not empty. -/
structure Host where
  configs : Table InstanceId Config
  secrets : InstanceId → Bool
  populated : InstanceId → Bool
  deletingRecords : Table InstanceId DeletingRecord
  trash : Table InstanceId Config
  diskBudget : Option DiskBudget
  properties : InstanceId → Option UnitProperties
  limits : Nat → Option ProjectLimit
  lock : Option InstanceId

namespace Host

/-- A host on which the manager never ran. -/
def empty : Host where
  configs := ∅
  secrets _ := false
  populated _ := false
  deletingRecords := ∅
  trash := ∅
  diskBudget := none
  properties _ := none
  limits _ := none
  lock := none

/-- `Manager.configs` -/
def records (s : Host) : List Config := s.configs.entries.map fun e => e.2

/-- `Manager.configs` without one instance. -/
def others (s : Host) (i : InstanceId) : List Config :=
  (s.configs.entries.filter fun e => e.1 ≠ i).map fun e => e.2

/-- The ports that records and deletions hold. -/
def occupied (s : Host) : List Nat :=
  s.records.map Config.port ++ s.deletingRecords.entries.map fun e => e.2.port

/-- The host with a record written. -/
def put (s : Host) (i : InstanceId) (config : Config) : Host :=
  { s with configs := s.configs.insert i config }

/-- A stop releases the lock. -/
def stopped (s : Host) : Host := { s with lock := none }

end Host

/-- A durable change to the files, or to the lock. -/
inductive Write where
  | acquire (i : InstanceId)
  | release
  | save (i : InstanceId) (config : Config)
  | secret (i : InstanceId)
  | deletingRecord (i : InstanceId) (record : DeletingRecord)
  | rename (i : InstanceId)
  | unlink (i : InstanceId)
  | diskBudget (budget : DiskBudget)

/-- The verbs of `systemctl` on one unit. -/
inductive Verb where
  | start
  | restart
  | stop
  | disable
  | revert
  | show
  deriving DecidableEq

/-- The directories whose usage is measured. -/
inductive Directory where
  | shared (name : String)
  | data (i : InstanceId)
  deriving DecidableEq

/-- A command, a file that only other programs read, or a session with the database. -/
inductive Command where
  | install (i : InstanceId) (name : String)
  | chown (i : InstanceId) (name : String)
  | assignProject (directory : Directory) (project : Nat)
  | limitProject (project : Nat) (limit : ProjectLimit)
  | dropIn (i : InstanceId) (name : String)
  | nft (script : String)
  | daemonReload
  | setProperty (i : InstanceId) (properties : UnitProperties)
  | systemctl (verb : Verb) (i : InstanceId)
  | du (directory : Directory)
  | removeTrash (i : InstanceId)
  | bootstrapMongo (i : InstanceId)
  | probe (i : InstanceId)
  | transfer (i : InstanceId)
  | compare (i : InstanceId)

/-- How a command ends: with what it printed, or with a failure before or after its effect. -/
inductive Outcome where
  | succeeded (output : Nat)
  | failed (effect : Bool)
  deriving DecidableEq

/-- A new value at one name. -/
def assign {α β : Type} [DecidableEq α] (f : α → β) (a : α) (b : β) : α → β :=
  fun x => if x = a then b else f x

@[simp] theorem assign_self {α β : Type} [DecidableEq α] (f : α → β) (a : α) (b : β) :
    assign f a b a = b := if_pos rfl

theorem assign_of_ne {α β : Type} [DecidableEq α] (f : α → β) {a x : α} (b : β) (h : x ≠ a) :
    assign f a b x = f x := if_neg h

/-- A runtime property that is not named keeps its value. -/
def UnitProperties.over (new : UnitProperties) (old : Option UnitProperties) : UnitProperties :=
  ⟨new.memoryMax, new.cpuMillicores.or (old.bind UnitProperties.cpuMillicores)⟩

/-- What a command changes on the host. -/
def Command.effect (s : Host) : Command → Host
  | limitProject project limit => { s with limits := assign s.limits project (some limit) }
  | setProperty i properties =>
    { s with properties := assign s.properties i (some (properties.over (s.properties i))) }
  | systemctl .start i | systemctl .restart i =>
    { s with populated := assign s.populated i true }
  | removeTrash i => { s with trash := s.trash.erase i }
  | _ => s

/-- The host answers a command. -/
def Command.answer (command : Command) (s : Host) : Outcome → Except InstanceError Nat × Host
  | .succeeded output => (.ok output, command.effect s)
  | .failed true => (.error .command, command.effect s)
  | .failed false => (.error .command, s)

/-- Only the file lock makes a change wait. -/
def Write.ready (s : Host) : Write → Bool
  | acquire _ => s.lock.isNone
  | _ => true

/-- What a change leaves on the host.  A directory is renamed with everything in it, and only onto
a name that is free. -/
def Write.exec (s : Host) : Write → Except InstanceError Host
  | acquire i => .ok { s with lock := some i }
  | release => .ok { s with lock := none }
  | save i config => .ok (s.put i config)
  | secret i => .ok { s with secrets := assign s.secrets i true }
  | deletingRecord i record =>
    .ok { s with deletingRecords := s.deletingRecords.insert i record }
  | rename i =>
    match s.configs.lookup i, s.trash.lookup i with
    | none, _ => .error .absent
    | some _, some _ => .error .system
    | some config, none => .ok
      { s with
        configs := s.configs.erase i
        trash := s.trash.insert i config
        secrets := assign s.secrets i false
        populated := assign s.populated i false }
  | unlink i => .ok { s with deletingRecords := s.deletingRecords.erase i }
  | diskBudget budget => .ok { s with diskBudget := some budget }

/-- How the requests meet the host. -/
def setting : Setting Host Write Command Nat InstanceError Outcome where
  ready t s := t.ready s
  exec t s := t.exec s
  answer command s outcome := command.answer s outcome

end StorageInstances
end OpenstackPlatform
