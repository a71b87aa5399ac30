import OpenstackPlatform.StorageInstances.Config

/-!
# The instance firewall

`Manager.firewall`: one `nft` script for all instances, built from their records.
-/

namespace OpenstackPlatform
namespace StorageInstances

/-- What the manager is configured with: the `namespace`, the two fixed `addresses`, the memory
budget and the size of the data volume. -/
structure Platform where
  space : String
  admin : String
  storage : String
  memoryBudget : Nat
  volumeBytes : Nat

/-- `firewall_table` -/
def firewallTable (space : String) : String :=
  "platform_" ++ String.ofList (space.toList.map fun c => if c = '-' then '_' else c) ++
    "_instances"

/-- The texts of the addresses that may reach an instance; an invalid one is a `ValueError`. -/
def admitted (platform : Platform) (config : Config) : Except InstanceError (List String) :=
  match ([platform.admin, platform.storage, "127.0.0.1"] ++ config.allowIps).mapM ipAddress with
  | some parsed => .ok (parsed.map IpAddress.text)
  | none => .error .system

/-- The accept rule of one address family, if it has an address. -/
def acceptRule (port : Nat) (family : String) (values : List String) : List String :=
  if values.isEmpty then []
  else ["tcp dport " ++ toString port ++ " " ++ family ++ " saddr \x7b " ++
    ", ".intercalate values ++ " \x7d accept"]

/-- The accept rules of one instance. -/
def acceptRules (platform : Platform) (config : Config) : Except InstanceError (List String) := do
  let values ← admitted platform config
  let v4 := sortedSet (values.filter fun value => !value.toList.contains ':')
  let v6 := sortedSet (values.filter fun value => value.toList.contains ':')
  return acceptRule config.port "ip" v4 ++ acceptRule config.port "ip6" v6

/-- A rule that drops what goes to some ports. -/
def dropRule (ports : List Nat) (condition : String) : List String :=
  if ports.isEmpty then []
  else ["tcp dport \x7b " ++ ", ".intercalate (ports.map toString) ++ " \x7d " ++ condition ++
    "counter drop"]

/-- The ports of instances, each once and in order. -/
def sortedPorts (configs : List Config) : List Nat :=
  (configs.map Config.port).dedup.insertionSort (· ≤ ·)

/-- The script that `firewall` gives to `nft`. -/
def firewallScript (platform : Platform) (configs : List Config) :
    Except InstanceError String := do
  let table := firewallTable platform.space
  let accepts ← configs.mapM (acceptRules platform)
  let fresh := (configs.filter fun config =>
    config.engine = .mongo && !config.adminInitialized).map Config.port
  let rules :=
    ["table inet " ++ table ++
      " \x7b chain ingress \x7b type filter hook input priority -50; policy accept;"] ++
    accepts.flatten ++ dropRule (sortedPorts configs) "" ++ ["\x7d"] ++
    ["chain bootstrap \x7b type filter hook output priority -50; policy accept;"] ++
    dropRule fresh "meta skuid != 0 " ++ ["\x7d", "\x7d"]
  return "add table inet " ++ table ++ "\nflush table inet " ++ table ++ "\n" ++
    "\n".intercalate rules

end StorageInstances
end OpenstackPlatform
