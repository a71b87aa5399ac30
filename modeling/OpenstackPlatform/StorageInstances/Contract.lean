import Mathlib.Data.Nat.Basic

/-!
# The contract for isolated database instances

`instance_contract.py`: the limits of an instance, the checks on requested ones and the quota of its
project.  `hardQuota` rounds up to whole mebibytes, and it is monotone, so that the quota of the
larger of two sizes is the larger quota.
-/

namespace OpenstackPlatform
namespace StorageInstances

/-- `1024 ** 2` -/
@[irreducible] def MIB : Nat := 1048576

/-- `1024 ** 3` -/
@[irreducible] def GIB : Nat := 1073741824

def DEFAULT_MEMORY : Nat := 512 * MIB
def MAINTENANCE_MEMORY : Nat := 2 * GIB
def CONNECTION_BUDGET : Nat := 2000
/-- How a request to the manager fails: `ValidationError`, `CapacityError`, `FileNotFoundError`,
an operating system error, a failed command and `InstanceNotReadyError`. -/
inductive InstanceError where
  | validation (message : String)
  | capacity (code message : String)
  | absent
  | system
  | command
  | notReady (message : String)
  deriving DecidableEq

/-- The limits of one database instance. -/
structure Quotas where
  sizeBytes : Nat
  connections : Nat
  memoryBytes : Nat
  cpuMillicores : Nat
  deriving DecidableEq, Repr

/-- The larger of two limits in every dimension. -/
def Quotas.larger (a b : Quotas) : Quotas where
  sizeBytes := max a.sizeBytes b.sizeBytes
  connections := max a.connections b.connections
  memoryBytes := max a.memoryBytes b.memoryBytes
  cpuMillicores := max a.cpuMillicores b.cpuMillicores

/-- The check of one limit. -/
def checkLimit (name : String) (lower upper number : Nat) : Except InstanceError Unit :=
  if lower ≤ number ∧ number ≤ upper then .ok ()
  else .error (.validation
    (name ++ " must be an integer from " ++ toString lower ++ " through " ++ toString upper))

/-- `validate_limits`: every limit in its range, the memory in whole mebibytes. -/
def validateLimits (value : Quotas) : Except InstanceError Quotas := do
  checkLimit "sizeBytes" GIB (500 * GIB) value.sizeBytes
  checkLimit "connections" 1 100 value.connections
  checkLimit "memoryBytes" DEFAULT_MEMORY (8 * GIB) value.memoryBytes
  if value.memoryBytes % MIB ≠ 0 then
    throw (.validation "memoryBytes must be a whole number of MiB")
  checkLimit "cpuMillicores" 100 4000 value.cpuMillicores
  return value

/-- `hard_quota`: half as much again as the size, in whole mebibytes. -/
def hardQuota (size : Nat) : Nat := ((size * 3 + 1) / 2 + MIB - 1) / MIB * MIB

/-- The limits that pass the check are the ones that were given. -/
theorem validateLimits_eq_ok {value target : Quotas} (h : validateLimits value = .ok target) :
    target = value := by
  unfold validateLimits at h
  simp only [bind, Except.bind, pure, Except.pure, throw, throwThe, MonadExceptOf.throw] at h
  repeat' split at h
  all_goals first | exact (Except.ok.inj h).symm | cases h

theorem hardQuota_mono {a b : Nat} (h : a ≤ b) : hardQuota a ≤ hardQuota b := by
  unfold hardQuota
  refine Nat.mul_le_mul_right MIB (Nat.div_le_div_right ?_)
  omega

end StorageInstances
end OpenstackPlatform
