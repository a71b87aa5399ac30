import OpenstackPlatform.Controller.Database
import OpenstackPlatform.Paths

/-!
# The storage contract

`storage_contract.py`: the outputs of each kind of managed storage, the keys they are stored under,
and the names no owner may set.

* `ResourceType`: the kinds, with their `outputs`, `derivedOutputs` and `retiredOutputs`.
* `canonicalSecretKey`, `canonicalSecretKeys`, `retiredSecretKeys`: keys of an app's variable.
* `reservedEnvironmentKeys`, `reservedEnvironmentPrefix`.
* `platformEnvironmentValues`, `jobEnvironment`: what the platform sets.
-/

namespace OpenstackPlatform
namespace Controller

open Library Validation

/-- `RESOURCE_TYPES` -/
inductive ResourceType where
  | postgres
  | mongo
  | s3
  deriving DecidableEq, Repr

namespace ResourceType

def name : ResourceType → String
  | postgres => "postgres"
  | mongo => "mongo"
  | s3 => "s3"

/-- `RESOURCE_OUTPUTS` -/
def outputs : ResourceType → List String
  | postgres =>
    ["url", "host", "port", "database", "user", "password", "sslmode", "sslrootcert"]
  | mongo => ["uri"]
  | s3 =>
    ["endpoint", "public_endpoint", "region", "access_key_id", "secret_access_key", "bucket"]

/-- `DERIVED_OUTPUTS` -/
def derivedOutputs : ResourceType → List String
  | postgres => []
  | mongo => []
  | s3 => ["public_endpoint"]

/-- `RETIRED_OUTPUTS` -/
def retiredOutputs : ResourceType → List String
  | postgres => []
  | mongo => []
  | s3 => ["ca_bundle", "force_path_style"]

end ResourceType

/-- `resource_name(value)` -/
def checkResourceName (value : String) : Except Error Unit :=
  require (isResourceName value)
    (.validation "resource name must be 1-40 lowercase letters, numbers, or interior hyphens")

/-- `str.upper`, of ASCII. -/
def upper (s : String) : String := String.ofList (s.toList.map Char.toUpper)

/-- `_secret_key` -/
def secretKey (resourceType : ResourceType) (checkedName output : String) : String :=
  let name := String.ofList (checkedName.toList.map fun c => if c = '-' then '_' else c)
  "STORAGE__" ++ upper resourceType.name ++ "__" ++ upper name ++ "__" ++ upper output

/-- `canonical_secret_key` -/
def canonicalSecretKey (resourceType : ResourceType) (name output : String) :
    Except Error String := do
  checkResourceName name
  require (resourceType.outputs.contains output) (.validation "managed-storage output is invalid")
  return secretKey resourceType name output

/-- `stored_outputs` -/
def storedOutputs (resourceType : ResourceType) : List String :=
  resourceType.outputs.filter fun output => !resourceType.derivedOutputs.contains output

/-- `canonical_secret_keys` -/
def canonicalSecretKeys (resourceType : ResourceType) (name : String) :
    Except Error (List String) :=
  (storedOutputs resourceType).mapM (canonicalSecretKey resourceType name)

/-- `retired_secret_keys` -/
def retiredSecretKeys (resourceType : ResourceType) (name : String) :
    Except Error (List String) := do
  checkResourceName name
  return resourceType.retiredOutputs.map (secretKey resourceType name)

/-- `public_s3_endpoint` -/
def publicS3Endpoint (domain : String) : String := "https://s3." ++ domain

/-- `derived_output` -/
def derivedOutput (resourceType : ResourceType) (output domain : String) : Except Error String := do
  require (resourceType.derivedOutputs.contains output)
    (.validation "managed-storage output is not derived")
  return publicS3Endpoint domain

/-- `FIXED_PLATFORM_ENVIRONMENT` -/
def fixedPlatformEnvironment : List (String × String) :=
  [("NODE_ENV", "production"), ("PLATFORM_ENV", "production")]

/-- `PLATFORM_ENVIRONMENT_KEYS` -/
def platformEnvironmentKeys : List String :=
  fixedPlatformEnvironment.map Prod.fst ++ ["PLATFORM_PROJECT_ID", "PLATFORM_PROJECT_SLUG", "PORT"]

/-- `JOB_ENVIRONMENT` -/
def jobEnvironment : List (String × String) :=
  [("NODE_EXTRA_CA_CERTS", "/platform-ca/internal-ca.crt"),
    ("AWS_REQUEST_CHECKSUM_CALCULATION", "when_required")]

/-- `RESERVED_ENVIRONMENT_KEYS` -/
def reservedEnvironmentKeys : List String :=
  platformEnvironmentKeys ++ jobEnvironment.map Prod.fst

/-- `RESERVED_ENVIRONMENT_PREFIX` -/
def reservedEnvironmentPrefix : String := "STORAGE__"

/-- `platform_environment_values` -/
def platformEnvironmentValues (applicationId applicationSlug : String) (applicationPort : Nat) :
    List (String × String) :=
  fixedPlatformEnvironment ++
    [("PLATFORM_PROJECT_ID", applicationId), ("PLATFORM_PROJECT_SLUG", applicationSlug),
      ("PORT", toString applicationPort)]

end Controller
end OpenstackPlatform
