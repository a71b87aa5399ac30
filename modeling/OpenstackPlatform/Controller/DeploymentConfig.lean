import OpenstackPlatform.Controller.StorageContract
import OpenstackPlatform.Library.JsonText

/-!
# Deployment configurations

`deployment_config.py`: what an owner chooses for a deployment, read from a mapping, a text or
bytes, and written as canonical JSON.

A text or bytes may take 65536 bytes; a mapping has no limit of its own.  Package paths are
normalised, and the storage bindings and the outputs of each are sorted, so the configuration does
not depend on the order of the payload.

* `DeploymentConfiguration`, `canonicalJson`.
* `Payload`, `parseConfiguration`.
-/

namespace OpenstackPlatform
namespace Controller

open Library Library.JsonText Validation

/-! ## Configurations -/

/-- `StorageOutputBinding` -/
structure StorageOutputBinding where
  resourceId : String
  outputs : List (String × String)
  deriving DecidableEq, Repr

/-- `DeploymentConfiguration` -/
structure DeploymentConfiguration where
  schemaVersion : Nat
  runtime : String
  packages : List String
  buildScript : Option String
  startScript : String
  port : Nat
  healthPath : String
  storageBindings : List StorageOutputBinding
  deriving DecidableEq, Repr

/-- A JSON string. -/
def jsonString (s : String) : Value := .str (Text.ofString s)

/-- An optional JSON string. -/
def jsonOptional : Option String → Value
  | some s => jsonString s
  | none => .null

/-- `dict(item.outputs)` -/
def outputsDocument (outputs : List (String × String)) : List (Text × Value) :=
  outputs.map fun output => (Text.ofString output.1, jsonString output.2)

/-- `{"resourceId": item.resource_id, "outputs": dict(item.outputs)}` -/
def bindingDocument (binding : StorageOutputBinding) : Value :=
  .obj [(Text.ofString "resourceId", jsonString binding.resourceId),
    (Text.ofString "outputs", .obj (outputsDocument binding.outputs))]

namespace DeploymentConfiguration

/-- The object that `canonical_json` encodes. -/
def document (c : DeploymentConfiguration) : Value :=
  .obj [(Text.ofString "schemaVersion", .int c.schemaVersion),
    (Text.ofString "build", .obj [(Text.ofString "runtime", jsonString c.runtime),
      (Text.ofString "packages", .arr (c.packages.map jsonString)),
      (Text.ofString "buildScript", jsonOptional c.buildScript),
      (Text.ofString "startScript", jsonString c.startScript)]),
    (Text.ofString "runtime", .obj [(Text.ofString "port", .int c.port),
      (Text.ofString "healthPath", jsonString c.healthPath)]),
    (Text.ofString "storageBindings", .arr (c.storageBindings.map bindingDocument))]

/-- `canonical_json` -/
def canonicalJson (c : DeploymentConfiguration) : Text := dumps c.document

end DeploymentConfiguration

/-! ## Values -/

/-- `value.get(key)` -/
def lookup (key : String) (members : List (Text × Value)) : Option Value :=
  (members.find? fun m => m.1 == Text.ofString key).map Prod.snd

/-- The text of a string value. -/
def asText : Value → Option Text
  | .str t => some t
  | _ => none

/-- The string of a string value that can be encoded. -/
def asString (value : Value) : Option String := (asText value).bind Text.toString?

/-- A string value that meets a check. -/
def checkedString (check : String → Bool) (message : String) (value : Value) :
    Except Error String :=
  match asString value with
  | some s => if check s then .ok s else .error (.validation message)
  | none => .error (.validation message)

/-- `_object`: the members of an object with exactly the expected keys. -/
def objectWith (value : Value) (expected : List String) (field : String) :
    Except Error (List (Text × Value)) :=
  match value with
  | .obj members =>
    if (expected.all fun key => (members.map Prod.fst).contains (Text.ofString key)) &&
        members.all fun m => (expected.map Text.ofString).contains m.1 then .ok members
    else .error (.validation s!"{field} fields are invalid")
  | _ => .error (.validation s!"{field} must be an object")

/-- The value under a key that the object is known to have. -/
def field (key : String) (members : List (Text × Value)) : Value := (lookup key members).getD .null

/-- The message of a failed check, as an exception. -/
def validated {α : Type} : Except String α → Except Error α
  | .ok a => .ok a
  | .error message => .error (.validation message)

/-- `relative_path(value, field="package path")` -/
def packagePath (value : Value) : Except Error String :=
  match asText value with
  | none => .error (.validation "package path must be a non-empty repository-relative path")
  | some t =>
    match Text.toString? t with
    | none => .error (.value "surrogates not allowed")
    | some s => validated (relativePath "package path" s)

/-- `health_path` -/
def checkedHealthPath (value : Value) : Except Error String :=
  match asText value with
  | none => .error (.validation "health path is malformed")
  | some t => validated (healthPath t)

/-- `script_name` -/
def checkedScriptName : Value → Except Error String :=
  checkedString isScriptName "script name contains unsupported characters"

/-- `uuid(value, field="storage resource ID")` -/
def checkedResourceId : Value → Except Error String :=
  checkedString isUuid "storage resource ID must be a canonical lowercase UUID"

/-- `env_key` -/
def checkedEnvKey : Value → Except Error String :=
  checkedString isEnvKey
    "environment key must start with A-Z and contain only A-Z, 0-9, or _"

/-- `[a-z][a-z0-9_]{0,31}` -/
def isOutputName (s : String) : Bool :=
  match s.toList with
  | [] => false
  | c :: cs => c.isLower && cs.length ≤ 31 && cs.all fun d => isLowerAlnum d || d == '_'

/-- The decimal is within half a unit in the last place of 1, so its float is 1. -/
def isFloatOne (mantissa exponent : Int) : Bool :=
  exponent ≤ 0 && (2 ^ 54 - 1) * (10 : Int) ^ (-exponent).toNat ≤ mantissa * 2 ^ 54 &&
    mantissa * 2 ^ 53 ≤ (2 ^ 53 + 1) * (10 : Int) ^ (-exponent).toNat

/-- `not isinstance(value, bool) and value == _SCHEMA_VERSION` -/
def isSchemaVersion : Value → Bool
  | .int n => n == 1
  | .float m e => isFloatOne m e
  | _ => false

/-- The value can be looked up in a set. -/
def isHashable : Value → Bool
  | .arr _ | .obj _ => false
  | _ => true

/-! ## Parts of a configuration -/

/-- The `build.runtime` of a configuration. -/
def checkedRuntime (value : Value) : Except Error String := do
  require (isHashable value) (.type "unhashable type")
  checkedString (fun s => s == "node" || s == "bun") "build runtime must be node or bun" value

/-- The `build.packages` of a configuration. -/
def checkedPackages (value : Value) : Except Error (List String) :=
  match value with
  | .arr items => do
    require (!items.isEmpty && items.length ≤ 32)
      (.validation "build packages must contain from 1 through 32 paths")
    let packages ← items.mapM packagePath
    require (packages.Nodup) (.validation "build package paths must be unique")
    return packages
  | _ => .error (.validation "build packages must contain from 1 through 32 paths")

/-- The `build.buildScript` of a configuration. -/
def checkedBuildScript : Value → Except Error (Option String)
  | .null => .ok none
  | value => (checkedScriptName value).map some

/-- The `runtime.port` of a configuration. -/
def checkedPort : Value → Except Error Nat
  | .int n =>
    if 1 ≤ n && n ≤ 65535 then .ok n.toNat
    else .error (.validation "runtime port must be an integer from 1 through 65535")
  | _ => .error (.validation "runtime port must be an integer from 1 through 65535")

/-- The order of a binding's outputs. -/
def outputLE (a b : String × String) : Prop :=
  Text.ofString a.1 < Text.ofString b.1 ∨ (a.1 = b.1 ∧ Text.ofString a.2 ≤ Text.ofString b.2)

instance : DecidableRel outputLE := fun _ _ => inferInstanceAs (Decidable (_ ∨ _))

/-- One output of a binding, with the targets that are taken before it. -/
def checkedOutput (targets : List String) (member : Text × Value) :
    Except Error (String × String) :=
  match Text.toString? member.1 with
  | none => .error (.validation "storage output name is malformed")
  | some output => do
    require (isOutputName output) (.validation "storage output name is malformed")
    let target ← checkedEnvKey member.2
    require (!reservedEnvironmentKeys.contains target &&
        !reservedEnvironmentPrefix.toList.isPrefixOf target.toList)
      (.validation s!"storage binding target '{target}' is reserved")
    require (!targets.contains target)
      (.validation s!"storage binding target '{target}' conflicts")
    return (output, target)

/-- The outputs of a binding in the order of the payload. -/
def checkedOutputs (targets : List String) :
    List (Text × Value) → Except Error (List (String × String))
  | [] => .ok []
  | member :: members => do
    let output ← checkedOutput targets member
    let outputs ← checkedOutputs (targets ++ [output.2]) members
    return output :: outputs

/-- One storage binding, with the resources and targets that are taken before it. -/
def checkedBinding (resourceIds targets : List String) (value : Value) :
    Except Error StorageOutputBinding := do
  let members ← objectWith value ["resourceId", "outputs"] "storage binding"
  let resourceId ← checkedResourceId (field "resourceId" members)
  require (!resourceIds.contains resourceId)
    (.validation "storage resource bindings must be unique")
  match field "outputs" members with
  | .obj outputs => do
    require (!outputs.isEmpty) (.validation "storage binding outputs must be a non-empty object")
    let mapped ← checkedOutputs targets outputs
    return ⟨resourceId, mapped.insertionSort outputLE⟩
  | _ => .error (.validation "storage binding outputs must be a non-empty object")

/-- The targets of a binding. -/
def StorageOutputBinding.targets (b : StorageOutputBinding) : List String := b.outputs.map Prod.snd

/-- The storage bindings in the order of the payload. -/
def checkedBindings (resourceIds targets : List String) :
    List Value → Except Error (List StorageOutputBinding)
  | [] => .ok []
  | value :: values => do
    let binding ← checkedBinding resourceIds targets value
    let bindings ←
      checkedBindings (resourceIds ++ [binding.resourceId]) (targets ++ binding.targets) values
    return binding :: bindings

/-- The order of the bindings. -/
def bindingLE (a b : StorageOutputBinding) : Prop :=
  Text.ofString a.resourceId ≤ Text.ofString b.resourceId

instance : DecidableRel bindingLE := fun a b =>
  inferInstanceAs (Decidable (Text.ofString a.resourceId ≤ Text.ofString b.resourceId))

/-- The `storageBindings` of a configuration. -/
def checkedStorageBindings : Value → Except Error (List StorageOutputBinding)
  | .arr items => do
    require (items.length ≤ 32)
      (.validation "storageBindings must be an array with at most 32 items")
    let bindings ← checkedBindings [] [] items
    return bindings.insertionSort bindingLE
  | _ => .error (.validation "storageBindings must be an array with at most 32 items")

/-! ## The parser -/

/-- `parse_configuration`, of a value that was read. -/
def parseDocument (value : Value) : Except Error DeploymentConfiguration := do
  let document ← objectWith value ["schemaVersion", "build", "runtime", "storageBindings"]
    "deployment configuration"
  require (isSchemaVersion (field "schemaVersion" document))
    (.validation "deployment configuration schemaVersion must be 1")
  let build ← objectWith (field "build" document)
    ["runtime", "packages", "buildScript", "startScript"] "build configuration"
  let runtimeName ← checkedRuntime (field "runtime" build)
  let packages ← checkedPackages (field "packages" build)
  let buildScript ← checkedBuildScript (field "buildScript" build)
  let start ← checkedScriptName (field "startScript" build)
  let runtime ← objectWith (field "runtime" document) ["port", "healthPath"]
    "runtime configuration"
  let port ← checkedPort (field "port" runtime)
  let health ← checkedHealthPath (field "healthPath" runtime)
  let bindings ← checkedStorageBindings (field "storageBindings" document)
  return ⟨1, runtimeName, packages, buildScript, start, port, health, bindings⟩

mutual

/-- No object in the value has two members with one key. -/
def distinctKeys : Value → Bool
  | .arr items => distinctItems items
  | .obj members => (members.map Prod.fst).Nodup && distinctMembers members
  | _ => true

/-- `distinctKeys` of each item. -/
def distinctItems : List Value → Bool
  | [] => true
  | item :: items => distinctKeys item && distinctItems items

/-- `distinctKeys` of each member. -/
def distinctMembers : List (Text × Value) → Bool
  | [] => true
  | (_, value) :: members => distinctKeys value && distinctMembers members

end

/-- `_MAX_CONFIGURATION_BYTES` -/
def maxConfigurationBytes : Nat := 65536

/-- `_load_json`, of bytes.  The hook on pairs refuses duplicate keys. -/
def loadJson (raw : List Nat) : Except Error Value := do
  require (raw.length ≤ maxConfigurationBytes)
    (.validation "deployment configuration exceeds its size limit")
  match loadsBytes raw with
  | some value =>
    require (distinctKeys value) (.validation "deployment configuration must be strict JSON")
    return value
  | none => .error (.validation "deployment configuration must be strict JSON")

/-- What `parse_configuration` is given.  The keys of a mapping are distinct. -/
inductive Payload where
  | text (payload : Text)
  | bytes (payload : List UInt8)
  | mapping (payload : Value) (distinct : distinctKeys payload = true)

/-- The value of a payload. -/
def Payload.load : Payload → Except Error Value
  | .text payload =>
    match Text.encode? payload with
    | some raw => loadJson raw
    | none => .error (.value "surrogates not allowed")
  | .bytes payload => loadJson (payload.map UInt8.toNat)
  | .mapping payload _ => .ok payload

/-- `parse_configuration` -/
def parseConfiguration (payload : Payload) : Except Error DeploymentConfiguration := do
  let value ← payload.load
  parseDocument value

end Controller
end OpenstackPlatform
