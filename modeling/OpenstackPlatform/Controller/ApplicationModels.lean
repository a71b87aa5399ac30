import OpenstackPlatform.Controller.ConfigurationSpec

/-!
# Application models

`application_models.py` and `DeploymentConfiguration.manifest`: a configuration whose storage
bindings name the resources they are for.

* `StorageBinding`, `Manifest`, `Recipe`.
* `DeploymentConfiguration.manifest`, with `manifest_ok`: what a manifest has of its configuration.
-/

namespace OpenstackPlatform
namespace Controller

open Library Validation

/-- `StorageBinding` -/
structure StorageBinding where
  name : String
  resourceType : ResourceType
  environment : List (String × String)
  deriving DecidableEq, Repr

/-- `Manifest` -/
structure Manifest where
  runtime : String
  packages : List String
  buildScript : Option String
  startScript : String
  port : Nat
  healthPath : String
  storageBindings : List StorageBinding
  deriving DecidableEq, Repr

/-- `Recipe`.  The Dockerfile is the text whose UTF-8 encoding the source keeps. -/
structure Recipe where
  dockerfile : Text
  sha256 : String
  deriving DecidableEq, Repr

/-- The kind with a name. -/
def ResourceType.ofName? (name : String) : Option ResourceType :=
  [ResourceType.postgres, .mongo, .s3].find? fun t => t.name == name

/-- One binding of a manifest, for the active resources of the application: the kind and the name of
each by its ID. -/
def StorageOutputBinding.resolve (resources : String → Option (String × String))
    (b : StorageOutputBinding) : Except Error StorageBinding :=
  match resources b.resourceId with
  | none => .error (.validation "storage binding references missing or inactive storage")
  | some (kind, machineName) =>
    match ResourceType.ofName? kind with
    | none => .error (.validation "storage binding references missing or inactive storage")
    | some resourceType => do
      checkResourceName machineName
      match b.outputs.find? fun o => !resourceType.outputs.contains o.1 with
      | some (output, _) =>
        .error (.validation s!"storage output '{output}' is not supported by {resourceType.name}")
      | none => return ⟨machineName, resourceType, b.outputs⟩

/-- `DeploymentConfiguration.manifest` -/
def DeploymentConfiguration.manifest (resources : String → Option (String × String))
    (c : DeploymentConfiguration) : Except Error Manifest := do
  let bindings ← c.storageBindings.mapM (StorageOutputBinding.resolve resources)
  return ⟨c.runtime, c.packages, c.buildScript, c.startScript, c.port, c.healthPath, bindings⟩

/-! ## What a manifest has of its configuration -/

/-- A binding that was resolved: its name is well formed, and its outputs are of its kind. -/
structure StorageBinding.Resolves (b : StorageOutputBinding) (s : StorageBinding) : Prop where
  name : isResourceName s.name = true
  environment : s.environment = b.outputs
  outputs : ∀ o ∈ s.environment, o.1 ∈ s.resourceType.outputs

theorem resolve_ok {resources : String → Option (String × String)} {b : StorageOutputBinding}
    {s : StorageBinding} (h : b.resolve resources = .ok s) : s.Resolves b := by
  rw [StorageOutputBinding.resolve] at h
  split at h
  · cases h
  · split at h
    · cases h
    · obtain ⟨hname, h⟩ := check_bind_eq_ok.mp h
      split at h
      · cases h
      · rename_i hfind
        cases h
        refine ⟨require_eq_ok.mp hname, rfl, fun o ho => ?_⟩
        have houtput := List.find?_eq_none.mp hfind o ho
        simpa using houtput

/-- Every member of a list that was mapped comes from a member of the first. -/
theorem exists_of_mem_mapM {α β : Type} {f : α → Except Error β} :
    ∀ {l : List α} {m : List β}, l.mapM f = .ok m → ∀ b ∈ m, ∃ a ∈ l, f a = .ok b
  | [], m, h, b, hb => by
    rw [List.mapM_nil] at h
    cases h
    cases hb
  | a :: l, m, h, b, hb => by
    rw [List.mapM_cons] at h
    obtain ⟨b', hb', h⟩ := bind_eq_ok.mp h
    obtain ⟨m', hm', h⟩ := bind_eq_ok.mp h
    cases h
    obtain rfl | hb := List.mem_cons.mp hb
    · exact ⟨a, List.mem_cons_self, hb'⟩
    · obtain ⟨a', ha', hf⟩ := exists_of_mem_mapM hm' b hb
      exact ⟨a', List.mem_cons_of_mem _ ha', hf⟩

/-- A manifest is its configuration, with resolved bindings. -/
theorem manifest_ok {resources : String → Option (String × String)} {c : DeploymentConfiguration}
    {m : Manifest} (h : c.manifest resources = .ok m) :
    m.runtime = c.runtime ∧ m.packages = c.packages ∧ m.buildScript = c.buildScript ∧
      m.startScript = c.startScript ∧ m.port = c.port ∧ m.healthPath = c.healthPath ∧
      ∀ s ∈ m.storageBindings, ∃ b ∈ c.storageBindings, s.Resolves b := by
  rw [DeploymentConfiguration.manifest] at h
  obtain ⟨bindings, hbindings, h⟩ := bind_eq_ok.mp h
  cases h
  refine ⟨rfl, rfl, rfl, rfl, rfl, rfl, fun s hs => ?_⟩
  obtain ⟨b, hb, hresolve⟩ := exists_of_mem_mapM hbindings s hs
  exact ⟨b, hb, resolve_ok hresolve⟩

end Controller
end OpenstackPlatform
