import OpenstackPlatform.Controller.DeploymentConfig

/-!
# What the configuration parser accepts

`DeploymentConfiguration.Valid` says what every accepted configuration is, and a valid
configuration is read back from the document it is written as.  The two directions are proved part
by part, in the order of the parser: strings, packages, outputs, bindings.

* `ValidOutput`, `ValidBinding`, `ValidBindings`, `DeploymentConfiguration.Valid`.
* `parseDocument_ok`, `parseConfiguration_valid`: an accepted configuration is valid.
* `sortedDocument`, `sortKeys_document`: the document with sorted keys.
* `parseDocument_sortedDocument`: a valid configuration is read back.
-/

namespace OpenstackPlatform
namespace Controller

open Library Library.JsonText Validation

/-! ## Strings -/

@[simp] theorem asString_jsonString (s : String) : asString (jsonString s) = some s := by
  rw [asString, jsonString, asText, Option.bind_some, Text.toString?_ofString]

variable {value : Value}

theorem asText_eq_some {t : Text} (h : asText value = some t) : value = .str t := by
  cases value with
  | str s => rw [← Option.some.inj h]
  | null => exact absurd h (by simp [asText])
  | bool b => exact absurd h (by simp [asText])
  | int n => exact absurd h (by simp [asText])
  | float m e => exact absurd h (by simp [asText])
  | arr items => exact absurd h (by simp [asText])
  | obj members => exact absurd h (by simp [asText])

theorem asString_eq_some {s : String} (h : asString value = some s) : value = jsonString s := by
  rw [asString, Option.bind_eq_some_iff] at h
  obtain ⟨t, ht, hs⟩ := h
  rw [asText_eq_some ht, jsonString, Text.toString?_eq_some_iff.mp hs]

/-- A checked string is a string that meets the check. -/
theorem checkedString_eq_ok {check : String → Bool} {message : String} {s : String} :
    checkedString check message value = .ok s ↔ value = jsonString s ∧ check s = true := by
  rw [checkedString]
  constructor
  · intro h
    cases hs : asString value with
    | none =>
      rw [hs] at h
      cases h
    | some s' =>
      rw [hs] at h
      by_cases hcheck : check s' = true
      · simp only [hcheck, if_true] at h
        cases h
        exact ⟨asString_eq_some hs, hcheck⟩
      · simp only [if_neg hcheck] at h
        cases h
  · rintro ⟨rfl, hcheck⟩
    simp only [asString_jsonString, hcheck, if_true]

theorem validated_eq_ok {α : Type} {x : Except String α} {a : α} :
    validated x = .ok a ↔ x = .ok a := by
  cases x <;> simp [validated]

/-- An accepted package path is accepted again, unchanged. -/
theorem packagePath_again {p : String} (h : packagePath value = .ok p) :
    packagePath (jsonString p) = .ok p := by
  rw [packagePath] at h
  cases ht : asText value with
  | none =>
    rw [ht] at h
    cases h
  | some t =>
    simp only [ht] at h
    cases hs : Text.toString? t with
    | none =>
      rw [hs] at h
      cases h
    | some s =>
      simp only [hs, validated_eq_ok] at h
      rw [packagePath, jsonString, asText]
      simp only [Text.toString?_ofString, validated_eq_ok]
      exact relativePath_normal h

/-- An accepted health path is accepted again, unchanged. -/
theorem checkedHealthPath_again {p : String} (h : checkedHealthPath value = .ok p) :
    checkedHealthPath (jsonString p) = .ok p := by
  rw [checkedHealthPath] at h
  cases ht : asText value with
  | none =>
    rw [ht] at h
    cases h
  | some t =>
    simp only [ht, validated_eq_ok] at h
    rw [checkedHealthPath, jsonString, asText, validated_eq_ok]
    exact (healthPath_ok h).2.1

/-! ## Objects -/

variable {members : List (Text × Value)}

theorem objectWith_eq_ok {expected : List String} {what : String}
    (h : objectWith value expected what = .ok members) : value = .obj members := by
  cases value with
  | obj members' =>
    rw [objectWith] at h
    split at h
    · rw [Except.ok.inj h]
    · cases h
  | null => exact absurd h (by simp [objectWith])
  | bool b => exact absurd h (by simp [objectWith])
  | int n => exact absurd h (by simp [objectWith])
  | float m e => exact absurd h (by simp [objectWith])
  | str s => exact absurd h (by simp [objectWith])
  | arr items => exact absurd h (by simp [objectWith])

theorem distinctMembers_iff :
    distinctMembers members = true ↔ ∀ m ∈ members, distinctKeys m.2 = true := by
  induction members with
  | nil => simp [distinctMembers]
  | cons m members ih => rw [distinctMembers, Bool.and_eq_true, ih, List.forall_mem_cons]

theorem distinctItems_iff {items : List Value} :
    distinctItems items = true ↔ ∀ v ∈ items, distinctKeys v = true := by
  induction items with
  | nil => simp [distinctItems]
  | cons item items ih => rw [distinctItems, Bool.and_eq_true, ih, List.forall_mem_cons]

/-- A value under a key has distinct keys when the object has. -/
theorem distinctKeys_field (key : String) (h : distinctKeys (.obj members) = true) :
    distinctKeys (field key members) = true := by
  rw [distinctKeys, Bool.and_eq_true, distinctMembers_iff] at h
  rw [field, lookup]
  cases hfind : members.find? fun m => m.1 == Text.ofString key with
  | none => rfl
  | some m => exact h.2 m (List.mem_of_find?_eq_some hfind)

/-! ## Packages -/

theorem mapM_packagePath_again : ∀ {items : List Value} {packages : List String},
    items.mapM packagePath = .ok packages →
      (packages.map jsonString).mapM packagePath = .ok packages ∧
        packages.length = items.length ∧
        ∀ p ∈ packages, packagePath (jsonString p) = .ok p
  | [], packages, h => by
    rw [List.mapM_nil] at h
    cases h
    exact ⟨rfl, rfl, fun p hp => absurd hp (by simp)⟩
  | item :: items, packages, h => by
    rw [List.mapM_cons] at h
    simp only [bind_eq_ok] at h
    obtain ⟨p, hp, ps, hps, h⟩ := h
    cases h
    obtain ⟨ih, hlen, hall⟩ := mapM_packagePath_again hps
    have hagain := packagePath_again hp
    refine ⟨?_, ?_, ?_⟩
    · rw [List.map_cons, List.mapM_cons]
      simp only [bind_eq_ok]
      exact ⟨p, hagain, ps, ih, rfl⟩
    · rw [List.length_cons, hlen, List.length_cons]
    · intro q hq
      rcases List.mem_cons.mp hq with rfl | hq
      · exact hagain
      · exact hall q hq

/-- What `build.packages` is. -/
structure ValidPackages (packages : List String) : Prop where
  nonempty : packages ≠ []
  length_le : packages.length ≤ 32
  path : ∀ p ∈ packages, packagePath (jsonString p) = .ok p
  read : (packages.map jsonString).mapM packagePath = .ok packages
  nodup : packages.Nodup

variable {packages : List String}

/-- Accepted packages are an array of 1 to 32 different paths. -/
theorem exists_of_checkedPackages (h : checkedPackages value = .ok packages) :
    ∃ items, value = .arr items ∧ items ≠ [] ∧ items.length ≤ 32 ∧
      items.mapM packagePath = .ok packages ∧ packages.Nodup := by
  cases value with
  | arr items =>
    simp only [checkedPackages, bind_eq_ok, require_eq_ok, Bool.and_eq_true, Bool.not_eq_true',
      decide_eq_true_eq, List.isEmpty_eq_false_iff] at h
    obtain ⟨-, ⟨hne, hlen⟩, packages', hmap, -, hnodup, h⟩ := h
    cases h
    exact ⟨items, rfl, hne, hlen, hmap, hnodup⟩
  | null => exact absurd h (by simp [checkedPackages])
  | bool b => exact absurd h (by simp [checkedPackages])
  | int n => exact absurd h (by simp [checkedPackages])
  | float m e => exact absurd h (by simp [checkedPackages])
  | str s => exact absurd h (by simp [checkedPackages])
  | obj members => exact absurd h (by simp [checkedPackages])

theorem checkedPackages_ok (h : checkedPackages value = .ok packages) : ValidPackages packages := by
  obtain ⟨items, -, hne, hlen, hmap, hnodup⟩ := exists_of_checkedPackages h
  obtain ⟨hread, hlength, hpath⟩ := mapM_packagePath_again hmap
  refine ⟨?_, by omega, hpath, hread, hnodup⟩
  rintro rfl
  rw [List.length_nil] at hlength
  exact hne (List.length_eq_zero_iff.mp hlength.symm)

theorem ValidPackages.read_back (h : ValidPackages packages) :
    checkedPackages (.arr (packages.map jsonString)) = .ok packages := by
  have hne : (packages.map jsonString).isEmpty = false := by
    rw [List.isEmpty_eq_false_iff, ne_eq, List.map_eq_nil_iff]
    exact h.nonempty
  simp only [checkedPackages, bind_eq_ok, require_eq_ok, Bool.and_eq_true, Bool.not_eq_true',
    decide_eq_true_eq, List.length_map]
  exact ⟨(), ⟨hne, h.length_le⟩, packages, h.read, (), h.nodup, rfl⟩

/-! ## Outputs -/

/-- What an output of a binding is. -/
structure ValidOutput (output : String × String) : Prop where
  name : isOutputName output.1 = true
  target : isEnvKey output.2 = true
  free : reservedEnvironmentKeys.contains output.2 = false
  unprefixed : reservedEnvironmentPrefix.toList.isPrefixOf output.2.toList = false

variable {targets : List String}

theorem checkedOutput_eq_ok {member : Text × Value} {output : String × String} :
    checkedOutput targets member = .ok output ↔
      member = (Text.ofString output.1, jsonString output.2) ∧ ValidOutput output ∧
        output.2 ∉ targets := by
  obtain ⟨key, value⟩ := member
  rw [checkedOutput]
  constructor
  · intro h
    cases hkey : Text.toString? key with
    | none =>
      simp only [hkey] at h
      cases h
    | some name =>
      simp only [hkey, bind_eq_ok, require_eq_ok, Bool.and_eq_true, Bool.not_eq_true',
        checkedEnvKey, checkedString_eq_ok, List.contains_eq_mem, decide_eq_false_iff_not] at h
      obtain ⟨-, hname, target, ⟨hvalue, htarget⟩, -, ⟨hfree, hprefix⟩, -, hnew, h⟩ := h
      cases h
      exact ⟨by rw [Text.toString?_eq_some_iff.mp hkey, hvalue],
        ⟨hname, htarget, by simpa using hfree, hprefix⟩, hnew⟩
  · rintro ⟨hmember, hvalid, hnew⟩
    obtain ⟨hkey, hvalue⟩ := Prod.mk.inj hmember
    rw [hkey, hvalue]
    simp only [Text.toString?_ofString, bind_eq_ok, require_eq_ok, Bool.and_eq_true,
      Bool.not_eq_true', checkedEnvKey, checkedString_eq_ok]
    exact ⟨(), hvalid.name, output.2, ⟨rfl, hvalid.target⟩, (),
      ⟨hvalid.free, hvalid.unprefixed⟩, (), by simpa using hnew, rfl⟩

/-- The accepted outputs, with targets that no earlier output took. -/
theorem checkedOutputs_eq_ok : ∀ {members : List (Text × Value)} {targets : List String}
    {outputs : List (String × String)}, targets.Nodup →
    (checkedOutputs targets members = .ok outputs ↔
      members = outputsDocument outputs ∧ (∀ o ∈ outputs, ValidOutput o) ∧
        (targets ++ outputs.map Prod.snd).Nodup)
  | [], targets, outputs, hnodup => by
    rw [checkedOutputs]
    constructor
    · intro h
      cases h
      exact ⟨rfl, fun o ho => absurd ho (by simp), by simpa using hnodup⟩
    · rintro ⟨hmembers, -, -⟩
      rw [List.map_eq_nil_iff.mp hmembers.symm]
  | member :: members, targets, outputs, hnodup => by
    rw [checkedOutputs]
    simp only [bind_eq_ok]
    constructor
    · rintro ⟨output, houtput, rest, hrest, h⟩
      cases h
      obtain ⟨rfl, hvalid, hnew⟩ := checkedOutput_eq_ok.mp houtput
      have hnodup' : (targets ++ [output.2]).Nodup :=
        List.nodup_append_comm.mp (List.nodup_cons.mpr ⟨hnew, hnodup⟩)
      obtain ⟨rfl, hvalids, htargets⟩ := (checkedOutputs_eq_ok hnodup').mp hrest
      refine ⟨rfl, ?_, by simpa using htargets⟩
      intro o ho
      rcases List.mem_cons.mp ho with rfl | ho
      · exact hvalid
      · exact hvalids o ho
    · rintro ⟨hmembers, hvalid, htargets⟩
      cases outputs with
      | nil => exact absurd hmembers (by simp [outputsDocument])
      | cons output rest =>
        obtain ⟨hmember, hmembers⟩ := List.cons.inj hmembers
        rw [List.map_cons, List.append_cons] at htargets
        have hnodup' := (List.nodup_append.mp htargets).1
        have hnew : output.2 ∉ targets := by
          have := List.nodup_append_comm.mp hnodup'
          exact (List.nodup_cons.mp this).1
        exact ⟨output, checkedOutput_eq_ok.mpr ⟨hmember, hvalid _ List.mem_cons_self, hnew⟩, rest,
          (checkedOutputs_eq_ok hnodup').mpr
            ⟨hmembers, fun o ho => hvalid o (List.mem_cons_of_mem _ ho), htargets⟩, rfl⟩

/-! ## Bindings -/

instance : Std.Total outputLE where
  total a b := by
    rcases lt_trichotomy (Text.ofString a.1) (Text.ofString b.1) with h | h | h
    · exact .inl (.inl h)
    · have heq := Text.ofString_injective h
      rcases le_total (Text.ofString a.2) (Text.ofString b.2) with h' | h'
      · exact .inl (.inr ⟨heq, h'⟩)
      · exact .inr (.inr ⟨heq.symm, h'⟩)
    · exact .inr (.inl h)

instance : IsTrans (String × String) outputLE where
  trans a b c hab hbc := by
    rcases hab with hab | ⟨hab, hab'⟩
    · rcases hbc with hbc | ⟨hbc, -⟩
      · exact .inl (lt_trans hab hbc)
      · exact .inl (hbc ▸ hab)
    · rcases hbc with hbc | ⟨hbc, hbc'⟩
      · exact .inl (hab ▸ hbc)
      · exact .inr ⟨hab.trans hbc, le_trans hab' hbc'⟩

instance : Std.Total bindingLE where
  total a b := le_total (Text.ofString a.resourceId) (Text.ofString b.resourceId)

instance : IsTrans StorageOutputBinding bindingLE where
  trans _ _ _ hab hbc := le_trans (α := Text) hab hbc

/-- What a storage binding is. -/
structure ValidBinding (b : StorageOutputBinding) : Prop where
  resourceId : isUuid b.resourceId = true
  nonempty : b.outputs ≠ []
  outputs : ∀ o ∈ b.outputs, ValidOutput o
  distinct : ((outputsDocument b.outputs).map Prod.fst).Nodup
  sorted : b.outputs.Pairwise outputLE

/-- A binding's object, with sorted keys. -/
def sortedBindingDocument (b : StorageOutputBinding) : Value :=
  .obj [(Text.ofString "outputs", .obj (outputsDocument b.outputs)),
    (Text.ofString "resourceId", jsonString b.resourceId)]

variable {b : StorageOutputBinding}

/-- An accepted binding is an object with a new resource and outputs that are sorted. -/
theorem exists_of_checkedBinding {ids : List String}
    (h : checkedBinding ids targets value = .ok b) :
    ∃ members outputs mapped, value = .obj members ∧ field "outputs" members = .obj outputs ∧
      outputs ≠ [] ∧ checkedOutputs targets outputs = .ok mapped ∧
      field "resourceId" members = jsonString b.resourceId ∧ isUuid b.resourceId = true ∧
      b.resourceId ∉ ids ∧ b.outputs = mapped.insertionSort outputLE := by
  simp only [checkedBinding, bind_eq_ok, require_eq_ok, Bool.not_eq_true', List.contains_eq_mem,
    decide_eq_false_iff_not] at h
  obtain ⟨members, hobject, id, hid, -, hnew, h⟩ := h
  obtain rfl := objectWith_eq_ok hobject
  obtain ⟨hfield, huuid⟩ := checkedString_eq_ok.mp hid
  cases houtputs : field "outputs" members with
  | obj outputs =>
    rw [houtputs] at h
    simp only [bind_eq_ok, require_eq_ok, Bool.not_eq_true', List.isEmpty_eq_false_iff] at h
    obtain ⟨-, hne, mapped, hmapped, h⟩ := h
    cases h
    exact ⟨members, outputs, mapped, rfl, houtputs, hne, hmapped, hfield, huuid, hnew, rfl⟩
  | null => rw [houtputs] at h; cases h
  | bool _ => rw [houtputs] at h; cases h
  | int _ => rw [houtputs] at h; cases h
  | float _ _ => rw [houtputs] at h; cases h
  | str _ => rw [houtputs] at h; cases h
  | arr _ => rw [houtputs] at h; cases h

theorem checkedBinding_ok {ids : List String} (hdistinct : distinctKeys value = true)
    (htargets : targets.Nodup) (h : checkedBinding ids targets value = .ok b) :
    ValidBinding b ∧ b.resourceId ∉ ids ∧ (targets ++ b.targets).Nodup := by
  obtain ⟨members, outputs, mapped, rfl, houtputs, hne, hmapped, -, hid, hnew, hsorted⟩ :=
    exists_of_checkedBinding h
  have hfield := distinctKeys_field "outputs" hdistinct
  obtain ⟨rfl, hvalid, hnodup⟩ := (checkedOutputs_eq_ok htargets).mp hmapped
  rw [houtputs, distinctKeys, Bool.and_eq_true, decide_eq_true_eq] at hfield
  have hperm : b.outputs.Perm mapped := by
    rw [hsorted]
    exact List.perm_insertionSort outputLE mapped
  refine ⟨⟨hid, ?_, ?_, ?_, ?_⟩, hnew, ?_⟩
  · intro hnil
    rw [hnil] at hperm
    rw [List.nil_perm.mp hperm] at hne
    exact hne rfl
  · intro o ho
    exact hvalid o (hperm.mem_iff.mp ho)
  · exact ((hperm.map _).map _).nodup_iff.mpr hfield.1
  · rw [hsorted]
    exact List.pairwise_insertionSort _ _
  · exact ((hperm.map Prod.snd).append_left targets).nodup_iff.mpr hnodup

/-- A valid binding is read back from its object. -/
theorem ValidBinding.read_back {ids : List String} (h : ValidBinding b) (hid : b.resourceId ∉ ids)
    (htargets : (targets ++ b.targets).Nodup) :
    checkedBinding ids targets (sortedBindingDocument b) = .ok b := by
  have houtputs : checkedOutputs targets (outputsDocument b.outputs) = .ok b.outputs :=
    (checkedOutputs_eq_ok (List.nodup_append.mp htargets).1).mpr ⟨rfl, h.outputs, htargets⟩
  have hne : (outputsDocument b.outputs).isEmpty = false := by
    rw [List.isEmpty_eq_false_iff, outputsDocument, ne_eq, List.map_eq_nil_iff]
    exact h.nonempty
  have hsorted : b.outputs.insertionSort outputLE = b.outputs := h.sorted.insertionSort_eq
  simp only [checkedBinding, bind_eq_ok, require_eq_ok, Bool.not_eq_true', List.contains_eq_mem,
    decide_eq_false_iff_not]
  refine ⟨_, rfl, b.resourceId, checkedString_eq_ok.mpr ⟨rfl, h.resourceId⟩, (), hid, ?_⟩
  show (do
    require (!(outputsDocument b.outputs).isEmpty) _
    let mapped ← checkedOutputs targets (outputsDocument b.outputs)
    return (⟨b.resourceId, mapped.insertionSort outputLE⟩ : StorageOutputBinding)) = .ok b
  simp only [bind_eq_ok, require_eq_ok, Bool.not_eq_true']
  exact ⟨(), hne, b.outputs, houtputs, by rw [hsorted]; rfl⟩

/-- The bindings of a configuration, in any order, with the resources and the targets that are
taken before them. -/
structure ValidBindings (ids targets : List String) (bindings : List StorageOutputBinding) :
    Prop where
  valid : ∀ b ∈ bindings, ValidBinding b
  ids : (ids ++ bindings.map StorageOutputBinding.resourceId).Nodup
  targets : (targets ++ bindings.flatMap StorageOutputBinding.targets).Nodup

theorem checkedBindings_ok : ∀ {values : List Value} {ids targets : List String}
    {bindings : List StorageOutputBinding}, (∀ v ∈ values, distinctKeys v = true) → ids.Nodup →
    targets.Nodup → checkedBindings ids targets values = .ok bindings →
      ValidBindings ids targets bindings ∧ bindings.length = values.length
  | [], ids, targets, bindings, _, hids, htargets, h => by
    rw [checkedBindings] at h
    cases h
    exact ⟨⟨fun b hb => absurd hb (by simp), by simpa using hids, by simpa using htargets⟩, rfl⟩
  | value :: values, ids, targets, bindings, hdistinct, hids, htargets, h => by
    simp only [checkedBindings, bind_eq_ok] at h
    obtain ⟨b, hb, rest, hrest, h⟩ := h
    cases h
    obtain ⟨hvalid, hnew, hnodup⟩ :=
      checkedBinding_ok (hdistinct value List.mem_cons_self) htargets hb
    have hids' : (ids ++ [b.resourceId]).Nodup :=
      List.nodup_append_comm.mp (List.nodup_cons.mpr ⟨hnew, hids⟩)
    obtain ⟨ih, hlen⟩ := checkedBindings_ok
      (fun v hv => hdistinct v (List.mem_cons_of_mem _ hv)) hids' hnodup hrest
    refine ⟨⟨?_, ?_, ?_⟩, by rw [List.length_cons, hlen, List.length_cons]⟩
    · intro c hc
      rcases List.mem_cons.mp hc with rfl | hc
      · exact hvalid
      · exact ih.valid c hc
    · rw [List.map_cons, List.append_cons]
      exact ih.ids
    · rw [List.flatMap_cons, ← List.append_assoc]
      exact ih.targets

/-- Valid bindings are read back from their objects. -/
theorem ValidBindings.read_back : ∀ {bindings : List StorageOutputBinding}
    {ids targets : List String}, ValidBindings ids targets bindings →
    checkedBindings ids targets (bindings.map sortedBindingDocument) = .ok bindings
  | [], _, _, _ => rfl
  | b :: rest, ids, targets, h => by
    have hids := h.ids
    have htargets := h.targets
    rw [List.map_cons, List.append_cons] at hids
    rw [List.flatMap_cons, ← List.append_assoc] at htargets
    have hnew : b.resourceId ∉ ids := by
      have := List.nodup_append_comm.mp (List.nodup_append.mp hids).1
      exact (List.nodup_cons.mp this).1
    have hb := (h.valid b List.mem_cons_self).read_back hnew (List.nodup_append.mp htargets).1
    have hrest := ValidBindings.read_back
      ⟨fun c hc => h.valid c (List.mem_cons_of_mem _ hc), hids, htargets⟩
    rw [List.map_cons, checkedBindings]
    simp only [bind_eq_ok]
    exact ⟨b, hb, rest, hrest, rfl⟩

variable {bindings : List StorageOutputBinding}

/-- The order of the bindings does not matter to their validity. -/
theorem ValidBindings.perm {bindings' : List StorageOutputBinding}
    (h : ValidBindings [] [] bindings) (hperm : bindings'.Perm bindings) :
    ValidBindings [] [] bindings' where
  valid b hb := h.valid b (hperm.mem_iff.mp hb)
  ids := (hperm.map _).nodup_iff.mpr h.ids
  targets := (hperm.flatMap_right _).nodup_iff.mpr h.targets

/-! ## Configurations -/

/-- What an accepted configuration is. -/
structure DeploymentConfiguration.Valid (c : DeploymentConfiguration) : Prop where
  schemaVersion : c.schemaVersion = 1
  runtime : c.runtime = "node" ∨ c.runtime = "bun"
  packages : ValidPackages c.packages
  buildScript : ∀ s ∈ c.buildScript, isScriptName s = true
  startScript : isScriptName c.startScript = true
  port : 1 ≤ c.port ∧ c.port ≤ 65535
  healthPath : Validation.healthPath (Text.ofString c.healthPath) = .ok c.healthPath
  bindings : ValidBindings [] [] c.storageBindings
  bindings_length : c.storageBindings.length ≤ 32
  bindings_sorted : c.storageBindings.Pairwise bindingLE

theorem checkedRuntime_eq_ok {s : String} :
    checkedRuntime value = .ok s ↔ value = jsonString s ∧ (s = "node" ∨ s = "bun") := by
  rw [checkedRuntime]
  simp only [bind_eq_ok, require_eq_ok, checkedString_eq_ok, Bool.or_eq_true, beq_iff_eq]
  constructor
  · rintro ⟨-, -, h⟩
    exact h
  · rintro ⟨rfl, h⟩
    exact ⟨(), rfl, rfl, h⟩

theorem checkedBuildScript_ok {script : Option String} (h : checkedBuildScript value = .ok script) :
    ∀ s ∈ script, isScriptName s = true := by
  intro s hs
  obtain rfl : script = some s := hs
  have hsome : (checkedScriptName value).map some = .ok (some s) := by
    cases value with
    | null => exact absurd h (by simp [checkedBuildScript])
    | _ => exact h
  cases hname : checkedScriptName value with
  | error e =>
    rw [hname] at hsome
    exact absurd hsome (by simp [Except.map])
  | ok s' =>
    rw [hname] at hsome
    cases Except.ok.inj hsome
    exact (checkedString_eq_ok.mp hname).2

theorem checkedBuildScript_optional {script : Option String}
    (h : ∀ s ∈ script, isScriptName s = true) :
    checkedBuildScript (jsonOptional script) = .ok script := by
  cases script with
  | none => rfl
  | some s =>
    have hs : checkedScriptName (jsonString s) = .ok s :=
      checkedString_eq_ok.mpr ⟨rfl, h s rfl⟩
    rw [jsonOptional, checkedBuildScript, hs]
    · rfl
    · intro hnull
      exact absurd hnull (by simp [jsonString])

theorem checkedPort_ok {port : Nat} (h : checkedPort value = .ok port) :
    value = .int port ∧ 1 ≤ port ∧ port ≤ 65535 := by
  cases value with
  | int n =>
    rw [checkedPort] at h
    split at h
    · rename_i hn
      rw [Bool.and_eq_true, decide_eq_true_eq, decide_eq_true_eq] at hn
      have := Except.ok.inj h
      refine ⟨?_, by omega, by omega⟩
      rw [show n = (port : Int) by omega]
    · cases h
  | null => exact absurd h (by simp [checkedPort])
  | bool _ => exact absurd h (by simp [checkedPort])
  | float _ _ => exact absurd h (by simp [checkedPort])
  | str _ => exact absurd h (by simp [checkedPort])
  | arr _ => exact absurd h (by simp [checkedPort])
  | obj _ => exact absurd h (by simp [checkedPort])

theorem checkedPort_int {port : Nat} (h : 1 ≤ port ∧ port ≤ 65535) :
    checkedPort (.int port) = .ok port := by
  rw [checkedPort, if_pos]
  · rfl
  · rw [Bool.and_eq_true, decide_eq_true_eq, decide_eq_true_eq]
    omega

/-- Accepted bindings are an array of at most 32, sorted. -/
theorem exists_of_checkedStorageBindings (h : checkedStorageBindings value = .ok bindings) :
    ∃ items read, value = .arr items ∧ items.length ≤ 32 ∧
      checkedBindings [] [] items = .ok read ∧ bindings = read.insertionSort bindingLE := by
  cases value with
  | arr items =>
    simp only [checkedStorageBindings, bind_eq_ok, require_eq_ok, decide_eq_true_eq] at h
    obtain ⟨-, hlen, read, hread, h⟩ := h
    exact ⟨items, read, rfl, hlen, hread, (Except.ok.inj h).symm⟩
  | null => exact absurd h (by simp [checkedStorageBindings])
  | bool _ => exact absurd h (by simp [checkedStorageBindings])
  | int _ => exact absurd h (by simp [checkedStorageBindings])
  | float _ _ => exact absurd h (by simp [checkedStorageBindings])
  | str _ => exact absurd h (by simp [checkedStorageBindings])
  | obj _ => exact absurd h (by simp [checkedStorageBindings])

theorem checkedStorageBindings_ok (hdistinct : distinctKeys value = true)
    (h : checkedStorageBindings value = .ok bindings) :
    ValidBindings [] [] bindings ∧ bindings.length ≤ 32 ∧ bindings.Pairwise bindingLE := by
  obtain ⟨items, read, rfl, hlen, hread, rfl⟩ := exists_of_checkedStorageBindings h
  rw [distinctKeys, distinctItems_iff] at hdistinct
  obtain ⟨hvalid, hlength⟩ := checkedBindings_ok hdistinct List.nodup_nil List.nodup_nil hread
  refine ⟨hvalid.perm (List.perm_insertionSort bindingLE read), ?_,
    List.pairwise_insertionSort _ _⟩
  rw [List.length_insertionSort, hlength]
  exact hlen

variable {c : DeploymentConfiguration}

/-- An accepted configuration is valid. -/
theorem parseDocument_ok (hdistinct : distinctKeys value = true) (h : parseDocument value = .ok c) :
    c.Valid := by
  simp only [parseDocument, bind_eq_ok, require_eq_ok] at h
  obtain ⟨document, hdocument, -, -, build, hbuild, runtimeName, hruntimeName, packages, hpackages,
    script, hscript, start, hstart, runtime, hruntime, port, hport, health, hhealth, bindings,
    hbindings, h⟩ := h
  cases h
  obtain rfl := objectWith_eq_ok hdocument
  have hfield := distinctKeys_field "storageBindings" hdistinct
  obtain ⟨hvalid, hlen, hsorted⟩ := checkedStorageBindings_ok hfield hbindings
  have hpath := checkedHealthPath_again hhealth
  rw [checkedHealthPath, jsonString, asText, validated_eq_ok] at hpath
  exact ⟨rfl, (checkedRuntime_eq_ok.mp hruntimeName).2, checkedPackages_ok hpackages,
    checkedBuildScript_ok hscript, (checkedString_eq_ok.mp hstart).2, (checkedPort_ok hport).2,
    hpath, hvalid, hlen, hsorted⟩

/-! ## Reading a configuration back -/

/-- `json.dumps(..., sort_keys=True)` writes the members of the document in this order. -/
def DeploymentConfiguration.sortedDocument (c : DeploymentConfiguration) : Value :=
  .obj [(Text.ofString "build", .obj [(Text.ofString "buildScript", jsonOptional c.buildScript),
      (Text.ofString "packages", .arr (c.packages.map jsonString)),
      (Text.ofString "runtime", jsonString c.runtime),
      (Text.ofString "startScript", jsonString c.startScript)]),
    (Text.ofString "runtime", .obj [(Text.ofString "healthPath", jsonString c.healthPath),
      (Text.ofString "port", .int c.port)]),
    (Text.ofString "schemaVersion", .int c.schemaVersion),
    (Text.ofString "storageBindings", .arr (c.storageBindings.map sortedBindingDocument))]

theorem sortKeys_jsonOptional (script : Option String) :
    sortKeys (jsonOptional script) = jsonOptional script := by
  cases script <;> rfl

theorem sortItems_map_jsonString : ∀ l : List String,
    sortItems (l.map jsonString) = l.map jsonString
  | [] => rfl
  | s :: l => by
    rw [List.map_cons, sortItems, sortItems_map_jsonString l]
    rfl

theorem sortMembers_outputsDocument : ∀ outputs : List (String × String),
    sortMembers (outputsDocument outputs) = outputsDocument outputs
  | [] => rfl
  | output :: outputs => by
    have ih := sortMembers_outputsDocument outputs
    rw [outputsDocument] at ih ⊢
    rw [List.map_cons, sortMembers, ih]
    rfl

/-- Sorted outputs make an object with sorted keys. -/
theorem pairwise_outputsDocument {outputs : List (String × String)}
    (h : outputs.Pairwise outputLE) : (outputsDocument outputs).Pairwise keyLE := by
  rw [outputsDocument, List.pairwise_map]
  refine h.imp ?_
  intro a b hab
  rcases hab with hab | ⟨hab, -⟩
  · exact le_of_lt hab
  · show Text.ofString a.1 ≤ Text.ofString b.1
    rw [hab]

theorem sortKeys_bindingDocument (h : ValidBinding b) :
    sortKeys (bindingDocument b) = sortedBindingDocument b := by
  have houtputs : sortKeys (.obj (outputsDocument b.outputs)) =
      .obj (outputsDocument b.outputs) := by
    rw [sortKeys, sortMembers_outputsDocument,
      (pairwise_outputsDocument h.sorted).insertionSort_eq]
  rw [bindingDocument, sortKeys, sortMembers, sortMembers, sortMembers, houtputs]
  rfl

theorem sortItems_map_bindingDocument : ∀ {bindings : List StorageOutputBinding},
    (∀ b ∈ bindings, ValidBinding b) →
    sortItems (bindings.map bindingDocument) = bindings.map sortedBindingDocument
  | [], _ => rfl
  | b :: bindings, h => by
    rw [List.map_cons, sortItems, sortKeys_bindingDocument (h b List.mem_cons_self),
      sortItems_map_bindingDocument fun c hc => h c (List.mem_cons_of_mem _ hc), List.map_cons]

/-- The document of a valid configuration, with sorted keys. -/
theorem sortKeys_document (h : c.Valid) : sortKeys c.document = c.sortedDocument := by
  have hbindings := sortItems_map_bindingDocument h.bindings.valid
  simp only [DeploymentConfiguration.document, sortKeys, sortMembers, sortKeys_jsonOptional,
    sortItems_map_jsonString, hbindings, jsonString]
  rfl

/-- A valid configuration is read back from its document. -/
theorem parseDocument_sortedDocument (h : c.Valid) : parseDocument c.sortedDocument = .ok c := by
  have hbuild := checkedBuildScript_optional h.buildScript
  have hstart : checkedScriptName (jsonString c.startScript) = .ok c.startScript :=
    checkedString_eq_ok.mpr ⟨rfl, h.startScript⟩
  have hruntime := checkedRuntime_eq_ok.mpr ⟨rfl, h.runtime⟩
  have hhealth : checkedHealthPath (jsonString c.healthPath) = .ok c.healthPath := by
    rw [checkedHealthPath, jsonString, asText, validated_eq_ok]
    exact h.healthPath
  have hbindings : checkedStorageBindings
      (.arr (c.storageBindings.map sortedBindingDocument)) = .ok c.storageBindings := by
    simp only [checkedStorageBindings, bind_eq_ok, require_eq_ok, decide_eq_true_eq,
      List.length_map]
    exact ⟨(), h.bindings_length, _, h.bindings.read_back,
      by rw [h.bindings_sorted.insertionSort_eq]; rfl⟩
  simp only [parseDocument, bind_eq_ok, require_eq_ok]
  refine ⟨_, rfl, (), ?_, _, rfl, c.runtime, hruntime, c.packages, h.packages.read_back,
    c.buildScript, hbuild, c.startScript, hstart, _, rfl, c.port, checkedPort_int h.port,
    c.healthPath, hhealth, c.storageBindings, hbindings, ?_⟩
  · show isSchemaVersion (.int c.schemaVersion) = true
    rw [h.schemaVersion]
    rfl
  · rw [← h.schemaVersion]
    rfl

/-! ## Payloads -/

/-- The value of a payload has distinct keys. -/
theorem distinctKeys_of_load {payload : Payload} (h : payload.load = .ok value) :
    distinctKeys value = true := by
  have hload : ∀ raw, loadJson raw = .ok value → distinctKeys value = true := by
    intro raw hraw
    simp only [loadJson, check_bind_eq_ok] at hraw
    obtain ⟨-, hraw⟩ := hraw
    cases hvalue : loadsBytes raw with
    | none =>
      rw [hvalue] at hraw
      cases hraw
    | some value' =>
      simp only [hvalue, bind_eq_ok, require_eq_ok] at hraw
      obtain ⟨-, hdistinct, hraw⟩ := hraw
      rwa [Except.ok.inj hraw] at hdistinct
  cases payload with
  | text t =>
    rw [Payload.load] at h
    cases hraw : Text.encode? t with
    | none =>
      rw [hraw] at h
      cases h
    | some raw =>
      rw [hraw] at h
      exact hload raw h
  | bytes raw => exact hload _ h
  | mapping value' hdistinct =>
    rw [← Except.ok.inj h]
    exact hdistinct

/-- **An accepted configuration is valid.** -/
theorem parseConfiguration_valid {payload : Payload} (h : parseConfiguration payload = .ok c) :
    c.Valid := by
  simp only [parseConfiguration, bind_eq_ok] at h
  obtain ⟨value, hload, hparse⟩ := h
  exact parseDocument_ok (distinctKeys_of_load hload) hparse

end Controller
end OpenstackPlatform
