import OpenstackPlatform.Controller.ConfigurationSpec
import OpenstackPlatform.Controller.DeploymentAttempts

/-!
# Stored configurations are read back

The canonical text of an accepted configuration is accepted again, with the same result, exactly
when it takes no more than 65536 bytes.  The size of the text is a sum over the payload: every
character that is not printable ASCII takes six or twelve bytes in it, so a payload within the
limits of the parser can be stored as a text beyond them.

* `encodedSize`: the size of the canonical text, as a sum over the payload's value.
* `parseConfiguration_canonicalJson`: reading the canonical text.
* `Readable`: what a call of `create_deployment_attempt` must keep.
* `round_trip_iff`: both hold exactly when the size is within the limit.
-/

namespace OpenstackPlatform
namespace Controller

open Library Library.JsonText Validation

/-! ## The canonical text -/

theorem plain_jsonString (s : String) : Plain (jsonString s) := by
  rw [jsonString, Plain]
  exact Text.all_isScalar_ofString s

theorem plain_jsonOptional (s : Option String) : Plain (jsonOptional s) := by
  cases s with
  | none => trivial
  | some s => exact plain_jsonString s

theorem plain_int {n : Nat} (h : n ≤ 65535) : Plain (.int n) := by
  have hlen : (digits n).length ≤ 5 := by
    rw [digits]
    split
    · decide
    · rw [List.length_map, List.length_reverse]
      exact (Nat.digits_length_le_iff (by decide) n).mpr (by omega)
  rw [Plain]
  exact hlen.trans (by decide)

theorem plainItems_iff {items : List Value} : PlainItems items ↔ ∀ v ∈ items, Plain v := by
  induction items with
  | nil => simp [PlainItems]
  | cons item items ih => rw [PlainItems, ih, List.forall_mem_cons]

theorem plain_bindingDocument (b : StorageOutputBinding) : Plain (bindingDocument b) := by
  have houtputs : PlainMembers (outputsDocument b.outputs) := by
    rw [plainMembers_iff]
    intro m hm
    obtain ⟨o, -, rfl⟩ := List.mem_map.mp hm
    exact ⟨Text.all_isScalar_ofString _, plain_jsonString _⟩
  rw [bindingDocument, Plain, plainMembers_iff]
  intro m hm
  simp only [List.mem_cons, List.not_mem_nil, or_false] at hm
  rcases hm with rfl | rfl
  · exact ⟨Text.all_isScalar_ofString _, plain_jsonString _⟩
  · refine ⟨Text.all_isScalar_ofString _, ?_⟩
    rw [Plain]
    exact houtputs

variable {c : DeploymentConfiguration}

/-- The document of a valid configuration is read back from its encoding. -/
theorem plain_document (h : c.Valid) : Plain c.document := by
  have hversion : Plain (.int c.schemaVersion) := plain_int (by rw [h.schemaVersion]; decide)
  have hport : Plain (.int c.port) := plain_int h.port.2
  have hpackages : Plain (.arr (c.packages.map jsonString)) := by
    rw [Plain, plainItems_iff]
    intro v hv
    obtain ⟨s, -, rfl⟩ := List.mem_map.mp hv
    exact plain_jsonString s
  have hbindings : Plain (.arr (c.storageBindings.map bindingDocument)) := by
    rw [Plain, plainItems_iff]
    intro v hv
    obtain ⟨b, -, rfl⟩ := List.mem_map.mp hv
    exact plain_bindingDocument b
  have hkey : ∀ s : String, (Text.ofString s).all Text.isScalar = true :=
    Text.all_isScalar_ofString
  rw [DeploymentConfiguration.document]
  exact ⟨hkey _, hversion, hkey _,
    ⟨hkey _, plain_jsonString _, hkey _, hpackages, hkey _, plain_jsonOptional _, hkey _,
      plain_jsonString _, trivial⟩,
    hkey _, ⟨hkey _, hport, hkey _, plain_jsonString _, trivial⟩, hkey _, hbindings, trivial⟩

/-- An object with the given distinct keys passes the check when its values do. -/
theorem distinctKeys_obj {members : List (Text × Value)} (keys : List String)
    (hnodup : (keys.map Text.ofString).Nodup)
    (hkeys : members.map Prod.fst = keys.map Text.ofString)
    (hvalues : ∀ m ∈ members, distinctKeys m.2 = true) : distinctKeys (.obj members) = true := by
  rw [distinctKeys, Bool.and_eq_true, decide_eq_true_eq, distinctMembers_iff, hkeys]
  exact ⟨hnodup, hvalues⟩

theorem distinctKeys_sortedBindingDocument {b : StorageOutputBinding} (h : ValidBinding b) :
    distinctKeys (sortedBindingDocument b) = true := by
  have houtputs : distinctKeys (.obj (outputsDocument b.outputs)) = true := by
    rw [distinctKeys, Bool.and_eq_true, decide_eq_true_eq, distinctMembers_iff]
    refine ⟨h.distinct, ?_⟩
    intro m hm
    obtain ⟨o, -, rfl⟩ := List.mem_map.mp hm
    rfl
  exact distinctKeys_obj ["outputs", "resourceId"] (by decide) rfl
    (List.forall_mem_cons.mpr ⟨houtputs, List.forall_mem_singleton.mpr rfl⟩)

/-- The document of a valid configuration passes the check for duplicate keys. -/
theorem distinctKeys_sortedDocument (h : c.Valid) : distinctKeys c.sortedDocument = true := by
  have hpackages : distinctKeys (.arr (c.packages.map jsonString)) = true := by
    rw [distinctKeys, distinctItems_iff]
    intro v hv
    obtain ⟨s, -, rfl⟩ := List.mem_map.mp hv
    rfl
  have hbindings : distinctKeys (.arr (c.storageBindings.map sortedBindingDocument)) = true := by
    rw [distinctKeys, distinctItems_iff]
    intro v hv
    obtain ⟨b, hb, rfl⟩ := List.mem_map.mp hv
    exact distinctKeys_sortedBindingDocument (h.bindings.valid b hb)
  have hscript : distinctKeys (jsonOptional c.buildScript) = true := by
    cases c.buildScript <;> rfl
  have hbuild := distinctKeys_obj ["buildScript", "packages", "runtime", "startScript"] (by decide)
    (rfl : [(Text.ofString "buildScript", jsonOptional c.buildScript),
      (Text.ofString "packages", .arr (c.packages.map jsonString)),
      (Text.ofString "runtime", jsonString c.runtime),
      (Text.ofString "startScript", jsonString c.startScript)].map Prod.fst = _)
    (List.forall_mem_cons.mpr ⟨hscript, List.forall_mem_cons.mpr ⟨hpackages,
      List.forall_mem_cons.mpr ⟨rfl, List.forall_mem_singleton.mpr rfl⟩⟩⟩)
  have hruntime := distinctKeys_obj ["healthPath", "port"] (by decide)
    (rfl : [(Text.ofString "healthPath", jsonString c.healthPath),
      (Text.ofString "port", .int c.port)].map Prod.fst = _)
    (List.forall_mem_cons.mpr ⟨rfl, List.forall_mem_singleton.mpr rfl⟩)
  exact distinctKeys_obj ["build", "runtime", "schemaVersion", "storageBindings"] (by decide) rfl
    (List.forall_mem_cons.mpr ⟨hbuild, List.forall_mem_cons.mpr ⟨hruntime,
      List.forall_mem_cons.mpr ⟨rfl, List.forall_mem_singleton.mpr hbindings⟩⟩⟩)

/-- The canonical text of a valid configuration is read back when it is within the limit, and is
refused otherwise. -/
theorem parseConfiguration_canonicalJson (h : c.Valid) :
    parseConfiguration (.text c.canonicalJson) =
      if c.canonicalJson.length ≤ maxConfigurationBytes then .ok c
      else .error (.validation "deployment configuration exceeds its size limit") := by
  have hprintable : Text.IsPrintable c.canonicalJson := isPrintable_dump _
  have hloads : loadsBytes c.canonicalJson = some c.sortedDocument := by
    rw [DeploymentConfiguration.canonicalJson, loadsBytes_dumps (plain_document h),
      sortKeys_document h]
  rw [parseConfiguration, Payload.load, Text.encode?_ascii hprintable.isAscii]
  simp only [loadJson, hloads]
  by_cases hsize : c.canonicalJson.length ≤ maxConfigurationBytes
  · simp only [hsize, decide_true, if_true, require, distinctKeys_sortedDocument h]
    exact parseDocument_sortedDocument h
  · simp only [hsize, decide_false, if_false, require]
    rfl

/-! ## The size of the canonical text -/

/-- The members of an object. -/
def membersOf : Value → List (Text × Value)
  | .obj members => members
  | _ => []

/-- The items of an array. -/
def itemsOf : Value → List Value
  | .arr items => items
  | _ => []

/-- The bytes of an encoded string value. -/
def textSize (value : Value) : Nat := stringSize ((asText value).getD [])

/-- The bytes of an encoded string value, or of `null`. -/
def optionalSize : Value → Nat
  | .null => 4
  | value => textSize value

/-- The bytes of an encoded path in its normal form. -/
def pathSize (value : Value) : Nat :=
  stringSize (Text.ofString (normalPath ((asString value).getD "")))

/-- The bytes of an encoded port. -/
def portSize : Value → Nat
  | .int n => (digits n.natAbs).length
  | _ => 0

/-- The bytes of a list of encoded values, with commas between them. -/
def listSize (sizes : List Nat) : Nat := sizes.sum + (sizes.length - 1)

/-- The bytes of an encoded output. -/
def outputSize (member : Text × Value) : Nat := stringSize member.1 + 1 + textSize member.2

/-- The bytes of an encoded binding: 28 for its keys and punctuation. -/
def bindingSize (value : Value) : Nat :=
  28 + listSize ((membersOf (field "outputs" (membersOf value))).map outputSize) +
    textSize (field "resourceId" (membersOf value))

/-- The bytes that a payload's value takes as canonical text, with its package paths in normal
form: 139 for the keys, the punctuation and the version, and the sizes of its parts. -/
def encodedSize (value : Value) : Nat :=
  let build := membersOf (field "build" (membersOf value))
  let runtime := membersOf (field "runtime" (membersOf value))
  139 + optionalSize (field "buildScript" build) +
    listSize ((itemsOf (field "packages" build)).map pathSize) + textSize (field "runtime" build) +
    textSize (field "startScript" build) + textSize (field "healthPath" runtime) +
    portSize (field "port" runtime) +
    listSize ((itemsOf (field "storageBindings" (membersOf value))).map bindingSize)

theorem textSize_jsonString (s : String) :
    textSize (jsonString s) = (dump (jsonString s)).length := by
  rw [textSize, jsonString, asText, Option.getD_some, dump, length_dumpString]

theorem portSize_int (n : Nat) : portSize (.int n) = (dump (.int n)).length := rfl

theorem length_dump_arr (items : List Value) :
    (dump (.arr items)).length = 2 + listSize (items.map fun v => (dump v).length) := by
  rw [dump, List.length_append, List.length_cons, length_dumpItems, List.length_singleton,
    listSize, List.length_map]
  omega

theorem length_dump_obj (members : List (Text × Value)) :
    (dump (.obj members)).length = 2 + listSize (members.map memberSize) := by
  rw [dump, List.length_append, List.length_cons, length_dumpMembers, List.length_singleton,
    listSize, List.length_map]
  omega

theorem listSize_perm {l m : List Nat} (h : l.Perm m) : listSize l = listSize m := by
  rw [listSize, h.sum_eq, h.length_eq, listSize]

/-- The size of a binding's object. -/
theorem length_dump_binding (b : StorageOutputBinding) :
    (dump (sortedBindingDocument b)).length =
      28 + listSize ((outputsDocument b.outputs).map memberSize) +
        (dump (jsonString b.resourceId)).length := by
  have houtputs := length_dump_obj (outputsDocument b.outputs)
  rw [sortedBindingDocument, length_dump_obj]
  simp only [listSize, List.map_cons, List.map_nil, List.sum_cons, List.sum_nil, memberSize_mk,
    List.length_cons, List.length_nil, houtputs,
    show stringSize (Text.ofString "outputs") = 9 from rfl,
    show stringSize (Text.ofString "resourceId") = 12 from rfl]
  omega

/-- The size of the canonical text, from those of its parts. -/
theorem length_canonicalJson (h : c.Valid) : c.canonicalJson.length =
      139 + (dump (jsonOptional c.buildScript)).length +
        listSize (c.packages.map fun p => (dump (jsonString p)).length) +
        (dump (jsonString c.runtime)).length + (dump (jsonString c.startScript)).length +
        (dump (jsonString c.healthPath)).length + (dump (.int c.port)).length +
        listSize (c.storageBindings.map fun b => (dump (sortedBindingDocument b)).length) := by
  have hversion : (dump (.int c.schemaVersion)).length = 1 := by
    rw [h.schemaVersion]
    rfl
  have hpackages := length_dump_arr (c.packages.map jsonString)
  have hbindings := length_dump_arr (c.storageBindings.map sortedBindingDocument)
  rw [List.map_map] at hpackages hbindings
  rw [DeploymentConfiguration.canonicalJson, dumps, sortKeys_document h,
    DeploymentConfiguration.sortedDocument, length_dump_obj]
  simp only [listSize, List.map_cons, List.map_nil, List.sum_cons, List.sum_nil, memberSize_mk,
    List.length_cons, List.length_nil, length_dump_obj, hpackages, hbindings, hversion,
    Function.comp_def, List.length_map,
    show stringSize (Text.ofString "build") = 7 from rfl,
    show stringSize (Text.ofString "buildScript") = 13 from rfl,
    show stringSize (Text.ofString "packages") = 10 from rfl,
    show stringSize (Text.ofString "runtime") = 9 from rfl,
    show stringSize (Text.ofString "startScript") = 13 from rfl,
    show stringSize (Text.ofString "healthPath") = 12 from rfl,
    show stringSize (Text.ofString "port") = 6 from rfl,
    show stringSize (Text.ofString "schemaVersion") = 15 from rfl,
    show stringSize (Text.ofString "storageBindings") = 17 from rfl]
  omega

/-! ## The size of a payload -/

variable {value : Value}

theorem pathSize_of_packagePath {p : String} (h : packagePath value = .ok p) :
    pathSize value = (dump (jsonString p)).length := by
  rw [packagePath] at h
  cases ht : asText value with
  | none =>
    rw [ht] at h
    cases h
  | some t =>
    simp only [ht] at h
    cases hs : Text.toString? t with
    | none =>
      rw [hs] at h
      cases h
    | some s =>
      simp only [hs, validated_eq_ok] at h
      rw [pathSize, asString, ht, Option.bind_some, hs, Option.getD_some,
        ← (relativePath_ok h).result_eq, jsonString, dump, length_dumpString]

theorem map_pathSize : ∀ {items : List Value} {packages : List String},
    items.mapM packagePath = .ok packages →
      items.map pathSize = packages.map fun p => (dump (jsonString p)).length
  | [], packages, h => by
    rw [List.mapM_nil] at h
    rw [← Except.ok.inj h]
    rfl
  | item :: items, packages, h => by
    rw [List.mapM_cons] at h
    simp only [bind_eq_ok] at h
    obtain ⟨p, hp, ps, hps, h⟩ := h
    rw [← Except.ok.inj h, List.map_cons, List.map_cons, pathSize_of_packagePath hp,
      map_pathSize hps]

theorem outputSize_document (output : String × String) :
    outputSize (Text.ofString output.1, jsonString output.2) =
      memberSize (Text.ofString output.1, jsonString output.2) := by
  rw [outputSize, memberSize_mk, textSize_jsonString]

theorem map_outputSize (outputs : List (String × String)) :
    (outputsDocument outputs).map outputSize = (outputsDocument outputs).map memberSize := by
  rw [outputsDocument, List.map_map, List.map_map]
  exact List.map_congr_left fun o _ => outputSize_document o

theorem bindingSize_of_checked {ids targets : List String} {b : StorageOutputBinding}
    (htargets : targets.Nodup) (h : checkedBinding ids targets value = .ok b) :
    bindingSize value = (dump (sortedBindingDocument b)).length := by
  obtain ⟨members, outputs, mapped, rfl, houtputs, -, hmapped, hid, -, -, hsorted⟩ :=
    exists_of_checkedBinding h
  obtain ⟨rfl, -, -⟩ := (checkedOutputs_eq_ok htargets).mp hmapped
  have hperm : (outputsDocument b.outputs).Perm (outputsDocument mapped) := by
    rw [hsorted]
    exact (List.perm_insertionSort outputLE mapped).map _
  rw [length_dump_binding, listSize_perm (hperm.map memberSize), bindingSize, membersOf,
    houtputs, hid, textSize_jsonString, ← map_outputSize, membersOf]

theorem map_bindingSize : ∀ {values : List Value} {ids targets : List String}
    {bindings : List StorageOutputBinding}, (∀ v ∈ values, distinctKeys v = true) →
    targets.Nodup → checkedBindings ids targets values = .ok bindings →
      values.map bindingSize =
        bindings.map fun b => (dump (sortedBindingDocument b)).length
  | [], ids, targets, bindings, _, _, h => by
    rw [checkedBindings] at h
    rw [← Except.ok.inj h]
    rfl
  | value :: values, ids, targets, bindings, hdistinct, htargets, h => by
    simp only [checkedBindings, bind_eq_ok] at h
    obtain ⟨b, hb, rest, hrest, h⟩ := h
    have hnodup := (checkedBinding_ok (hdistinct value List.mem_cons_self) htargets hb).2.2
    rw [← Except.ok.inj h, List.map_cons, List.map_cons, bindingSize_of_checked htargets hb,
      map_bindingSize (fun v hv => hdistinct v (List.mem_cons_of_mem _ hv)) hnodup hrest]

theorem optionalSize_of_checked {script : Option String}
    (h : checkedBuildScript value = .ok script) :
    optionalSize value = (dump (jsonOptional script)).length := by
  by_cases hnull : value = .null
  · subst hnull
    rw [← Except.ok.inj h]
    rfl
  · rw [checkedBuildScript] at h
    · cases hname : checkedScriptName value with
      | error e =>
        rw [hname] at h
        exact absurd h (by simp [Except.map])
      | ok s =>
        rw [hname] at h
        rw [← Except.ok.inj h, (checkedString_eq_ok.mp hname).1]
        exact textSize_jsonString s
    · exact hnull

/-- The size of an accepted payload is the length of its canonical text. -/
theorem encodedSize_of_parsed (hdistinct : distinctKeys value = true)
    (h : parseDocument value = .ok c) : encodedSize value = c.canonicalJson.length := by
  have hvalid := parseDocument_ok hdistinct h
  simp only [parseDocument, bind_eq_ok, require_eq_ok] at h
  obtain ⟨document, hdocument, -, -, build, hbuild, runtimeName, hruntimeName, packages, hpackages,
    script, hscript, start, hstart, runtime, hruntime, port, hport, health, hhealth, bindings,
    hbindings, h⟩ := h
  cases h
  obtain rfl := objectWith_eq_ok hdocument
  have hfield := distinctKeys_field "storageBindings" hdistinct
  have hpackageSizes : (itemsOf (field "packages" build)).map pathSize =
      packages.map fun p => (dump (jsonString p)).length := by
    obtain ⟨items, hitems, -, -, hmap, -⟩ := exists_of_checkedPackages hpackages
    rw [hitems, itemsOf, map_pathSize hmap]
  have hbindingSizes : listSize ((itemsOf (field "storageBindings" document)).map bindingSize) =
      listSize (bindings.map fun b => (dump (sortedBindingDocument b)).length) := by
    obtain ⟨items, read, hitems, -, hread, rfl⟩ := exists_of_checkedStorageBindings hbindings
    rw [hitems, distinctKeys, distinctItems_iff] at hfield
    rw [hitems, itemsOf, map_bindingSize hfield List.nodup_nil hread]
    exact listSize_perm ((List.perm_insertionSort bindingLE read).map _).symm
  have hhealthValue : textSize (field "healthPath" runtime) =
      (dump (jsonString health)).length := by
    rw [checkedHealthPath] at hhealth
    cases ht : asText (field "healthPath" runtime) with
    | none =>
      rw [ht] at hhealth
      cases hhealth
    | some t =>
      simp only [ht, validated_eq_ok] at hhealth
      rw [asText_eq_some ht, (healthPath_ok hhealth).1]
      exact textSize_jsonString health
  rw [length_canonicalJson hvalid, encodedSize]
  simp only [membersOf, objectWith_eq_ok hbuild, objectWith_eq_ok hruntime, hpackageSizes,
    hbindingSizes, hhealthValue, optionalSize_of_checked hscript, (checkedPort_ok hport).1,
    portSize_int, (checkedRuntime_eq_ok.mp hruntimeName).1, (checkedString_eq_ok.mp hstart).1,
    textSize_jsonString]

/-! ## Round trips -/

/-- The size of a payload's canonical text. -/
def Payload.encodedSize (payload : Payload) : Nat :=
  match payload.load with
  | .ok value => Controller.encodedSize value
  | .error _ => 0

theorem parseConfiguration_mapping (value : Value) (h : distinctKeys value = true) :
    parseConfiguration (.mapping value h) = parseDocument value := rfl

/-- An accepted payload has a value, the configuration is valid, and its canonical text has the
size of the payload. -/
theorem parseConfiguration_ok {payload : Payload} (h : parseConfiguration payload = .ok c) :
    c.Valid ∧ payload.encodedSize = c.canonicalJson.length := by
  simp only [parseConfiguration, bind_eq_ok] at h
  obtain ⟨value, hload, hparse⟩ := h
  have hdistinct := distinctKeys_of_load hload
  refine ⟨parseDocument_ok hdistinct hparse, ?_⟩
  rw [Payload.encodedSize, hload]
  exact encodedSize_of_parsed hdistinct hparse

/-- The canonical text is accepted, gives the same configuration, and is the canonical text of
what it gives. -/
structure RoundTrips (c : DeploymentConfiguration) : Prop where
  accepted : parseConfiguration (.text c.canonicalJson) = .ok c
  fixed : ∀ c', parseConfiguration (.text c.canonicalJson) = .ok c' →
    c'.canonicalJson = c.canonicalJson

theorem roundTrips_iff (h : c.Valid) :
    RoundTrips c ↔ c.canonicalJson.length ≤ maxConfigurationBytes := by
  have hparse := parseConfiguration_canonicalJson h
  constructor
  · rintro ⟨haccepted, -⟩
    by_contra hsize
    rw [if_neg hsize, haccepted] at hparse
    cases hparse
  · intro hsize
    rw [if_pos hsize] at hparse
    refine ⟨hparse, ?_⟩
    intro c' hc'
    rw [hparse] at hc'
    rw [Except.ok.inj hc']

/-! ## Attempts -/

variable {sha256 : Text → String}

/-- What every call of `create_deployment_attempt` with a configuration must keep: a call that
raises leaves the database unchanged, and a row that it commits is read back with its
configuration. -/
structure Readable (sha256 : Text → String) (c : DeploymentConfiguration) : Prop where
  raising : ∀ (r : CreateAttempt) (now : Timestamp) (db : Database) (e : Error),
    r.configuration = c → (createDeploymentAttempt sha256 r now db).2 = .error e →
      (createDeploymentAttempt sha256 r now db).1 = db
  committed : ∀ (r : CreateAttempt) (now : Timestamp) (db : Database) (row : DeploymentAttempt),
    r.configuration = c → db.attempts.lookup r.deploymentId = none →
      (createDeploymentAttempt sha256 r now db).1.attempts.lookup r.deploymentId = some row →
        getDeploymentAttempt sha256 (createDeploymentAttempt sha256 r now db).1 r.deploymentId =
          .ok (some ⟨row, c⟩)

/-- The row after an insertion is the one of the call. -/
theorem lookup_inserted {r : CreateAttempt} {now : Timestamp} {db db' : Database}
    (h : insertDeploymentAttempt sha256 r now db = .ok (.inr db')) :
    db'.attempts.lookup r.deploymentId = some (r.row sha256 now) := by
  obtain ⟨-, request, -, -, hinsert⟩ := insertDeploymentAttempt_ok h
  obtain ⟨-, db₁, hput, rfl⟩ := CreateAttempt.insert_ok hinsert
  obtain ⟨-, -, -, rfl⟩ := Database.putAttempt_eq_ok.mp hput
  show (db.attempts.insert r.deploymentId _).lookup r.deploymentId = _
  rw [Table.lookup_insert_ite, if_pos rfl]

/-- A row with a canonical text and its hash is read when the text is within the limit. -/
theorem readAttempt_canonical (h : c.Valid) (row : DeploymentAttempt)
    (hjson : row.configurationJson = c.canonicalJson)
    (hsha : row.configurationSha256 = sha256 c.canonicalJson) :
    readAttempt sha256 row =
      if c.canonicalJson.length ≤ maxConfigurationBytes then .ok ⟨row, c⟩
      else .error (.validation "deployment configuration exceeds its size limit") := by
  have hhash : (sha256 row.configurationJson == row.configurationSha256) = true := by
    rw [hjson, hsha, beq_self_eq_true]
  rw [readAttempt, hhash, hjson, parseConfiguration_canonicalJson h]
  by_cases hsize : c.canonicalJson.length ≤ maxConfigurationBytes
  · simp only [require, if_true, if_pos hsize, bind, Except.bind, beq_self_eq_true]
    rfl
  · simp only [require, if_true, if_neg hsize, bind, Except.bind]

/-- Reading an inserted row reads its canonical text. -/
theorem getDeploymentAttempt_inserted {r : CreateAttempt} {now : Timestamp} {db db' : Database}
    (h : insertDeploymentAttempt sha256 r now db = .ok (.inr db')) (hvalid : r.configuration.Valid) :
    getDeploymentAttempt sha256 db' r.deploymentId =
      if r.configuration.canonicalJson.length ≤ maxConfigurationBytes then
        .ok (some ⟨r.row sha256 now, r.configuration⟩)
      else .error (.validation "deployment configuration exceeds its size limit") := by
  have hcheck : checkUuid "deployment_id" r.deploymentId = .ok () := by
    have hcheck := (insertDeploymentAttempt_ok h).1
    simp only [CreateAttempt.check, check_bind_eq_ok] at hcheck
    exact hcheck.1
  simp only [getDeploymentAttempt, hcheck, lookup_inserted h, bind, Except.bind,
    readAttempt_canonical hvalid (r.row sha256 now) rfl rfl]
  by_cases hsize : r.configuration.canonicalJson.length ≤ maxConfigurationBytes
  · rw [if_pos hsize, if_pos hsize]
    rfl
  · rw [if_neg hsize, if_neg hsize]
    rfl

/-- A configuration whose canonical text is within the limit makes every attempt readable. -/
theorem readable_of_size (h : c.Valid) (hsize : c.canonicalJson.length ≤ maxConfigurationBytes) :
    Readable sha256 c where
  raising r now db e hc herror := by
    obtain rfl := hc
    rw [createDeploymentAttempt] at herror ⊢
    cases hinsert : insertDeploymentAttempt sha256 r now db with
    | error e' => rfl
    | ok result =>
      cases result with
      | inl attempt => rfl
      | inr db' =>
        rw [hinsert] at herror
        simp only [getDeploymentAttempt_inserted hinsert h, if_pos hsize] at herror
        cases herror
  committed r now db row hc hnone hrow := by
    obtain rfl := hc
    rw [createDeploymentAttempt] at hrow ⊢
    cases hinsert : insertDeploymentAttempt sha256 r now db with
    | error e' =>
      rw [hinsert] at hrow
      cases hnone.symm.trans hrow
    | ok result =>
      cases result with
      | inl attempt =>
        rw [hinsert] at hrow
        cases hnone.symm.trans hrow
      | inr db' =>
        rw [hinsert] at hrow
        simp only [lookup_inserted hinsert, Option.some.injEq] at hrow
        simp only [getDeploymentAttempt_inserted hinsert h, if_pos hsize, hrow]

/-! ## An unreadable attempt -/

/-- A database with a claimed request and an application without environment keys. -/
def claimedDatabase : Database :=
  { Database.empty.putRequest "00000000-0000-4000-8000-00000000000d" ⟨"", none, none⟩ with
    environmentRevisions := AList.insert "00000000-0000-4000-8000-00000000000a" 0 ∅ }

/-- The call that creates the claimed attempt. -/
def claimedAttempt (c : DeploymentConfiguration) : CreateAttempt where
  deploymentId := "00000000-0000-4000-8000-00000000000d"
  applicationId := "00000000-0000-4000-8000-00000000000a"
  sourceCommit := "0123456789abcdef0123456789abcdef01234567"
  requestedRef := "main"
  configurationRevision := 0
  configuration := c
  environmentRevision := 0
  idempotencyRequestId := "00000000-0000-4000-8000-00000000000d"

/-- The claimed attempt is created for any configuration with a port. -/
theorem exists_inserted (hsha : ∀ t, isSha256Hex (sha256 t) = true)
    (hport : 1 ≤ c.port ∧ c.port ≤ 65535) :
    ∃ db', insertDeploymentAttempt sha256 (claimedAttempt c) 0 claimedDatabase =
      .ok (.inr db') := by
  have hchecked : ((claimedAttempt c).row sha256 0).checked = true := by
    simp [DeploymentAttempt.checked, CreateAttempt.row, claimedAttempt, hsha, hport]
  obtain ⟨db₁, hput⟩ : ∃ db₁, claimedDatabase.putAttempt (claimedAttempt c).deploymentId
      ((claimedAttempt c).row sha256 0) = .ok db₁ :=
    ⟨_, Database.putAttempt_eq_ok.mpr ⟨hchecked,
      claimedDatabase.one_unfinished_attempt.insert (fun k a s _ ha => absurd ha (by
        show (∅ : Table OperationId DeploymentAttempt).lookup k ≠ some a
        simp)),
      claimedDatabase.one_attempt_per_request.insert (fun k a s _ ha => absurd ha (by
        show (∅ : Table OperationId DeploymentAttempt).lookup k ≠ some a
        simp)), rfl⟩⟩
  refine ⟨db₁.putRequest (claimedAttempt c).idempotencyRequestId
    ⟨"", some "deployment", some (claimedAttempt c).deploymentId⟩, ?_⟩
  have hcheck : (claimedAttempt c).check = .ok () := by
    simp only [CreateAttempt.check, check_bind_eq_ok, checkUuid, checkCommit, checkRevision,
      require_eq_ok, claimedAttempt]
    exact ⟨by decide, by decide, by decide, by decide, rfl, rfl, by decide⟩
  have hinsert : (claimedAttempt c).insert sha256 0 ⟨"", none, none⟩ claimedDatabase =
      .ok (db₁.putRequest (claimedAttempt c).idempotencyRequestId
        ⟨"", some "deployment", some (claimedAttempt c).deploymentId⟩) := by
    simp only [CreateAttempt.insert, bind_eq_ok, require_eq_ok]
    exact ⟨(), rfl, (), rfl, (), rfl, db₁, hput, rfl⟩
  have hrequest : claimedDatabase.getRequest (claimedAttempt c).idempotencyRequestId =
      some ⟨"", none, none⟩ := rfl
  have hearlier : (claimedAttempt c).earlierResult sha256 ⟨"", none, none⟩ claimedDatabase =
      .ok none := rfl
  simp only [insertDeploymentAttempt, hrequest, hearlier, bind_eq_ok]
  refine ⟨(), hcheck, none, rfl, ?_⟩
  simp only [hinsert, bind_eq_ok]
  exact ⟨_, rfl, rfl⟩

/-- A valid configuration whose canonical text is beyond the limit can be stored as a row that is
not read back: the call that creates it raises with the row committed. -/
theorem exists_unreadable (hsha : ∀ t, isSha256Hex (sha256 t) = true) (h : c.Valid)
    (hsize : ¬ c.canonicalJson.length ≤ maxConfigurationBytes) :
    ∃ db' row, createDeploymentAttempt sha256 (claimedAttempt c) 0 claimedDatabase =
        (db', .error (.validation "deployment configuration exceeds its size limit")) ∧
      claimedDatabase.attempts.lookup (claimedAttempt c).deploymentId = none ∧
      db'.attempts.lookup (claimedAttempt c).deploymentId = some row := by
  obtain ⟨db', hinsert⟩ := exists_inserted hsha h.port
  refine ⟨db', _, ?_, rfl, lookup_inserted hinsert⟩
  have hget := getDeploymentAttempt_inserted hinsert h
  rw [show (claimedAttempt c).configuration = c from rfl, if_neg hsize] at hget
  rw [createDeploymentAttempt, hinsert]
  exact congrArg (Prod.mk db') hget

/-! ## Long package paths -/

/-- A name without slashes, dots and backslashes is a path. -/
theorem relativePath_name {s : String} (hne : s ≠ "") (hsize : s.utf8ByteSize ≤ 1024)
    (hname : ∀ c ∈ s.toList, c ≠ '/' ∧ c ≠ '.' ∧ c ≠ '\\' ∧ c ≠ '\x00') (field : String) :
    relativePath field s = .ok s := by
  have hnil : s.toList ≠ [] := fun h => hne (String.toList_inj.mp h)
  have hslash : '/' ∉ s.toList := fun h => (hname _ h).1 rfl
  have hsegment : ∀ p ∈ [s.toList], IsSegment p := by
    intro p hp
    rw [List.mem_singleton.mp hp]
    refine ⟨hnil, ?_, hslash⟩
    intro hdot
    exact (hname '.' (by rw [hdot]; exact List.mem_singleton_self _)).2.1 rfl
  have hjoin : joinSegments [s.toList] = s.toList := by
    rw [joinSegments, if_neg (List.cons_ne_nil _ _), intercalate_singleton]
  have hsegments : segments s.toList = [s.toList] := by
    have := segments_joinSegments hsegment
    rwa [hjoin] at this
  have hnormal : normalPath s = s := by
    rw [normalPath, hsegments, hjoin, String.ofList_toList]
  have hprefix := dotSlash_not_prefix (hsegment s.toList (List.mem_singleton_self _)) []
  have hdouble := contains_slashes_intercalate hsegment
  rw [intercalate_singleton] at hprefix hdouble
  simp only [relativePath, refuse_bind_eq_ok, Bool.or_eq_false_iff, beq_eq_false_iff_ne,
    decide_eq_false_iff_not, not_lt, List.contains_eq_mem, hsegments, hnormal, hprefix, hdouble]
  refine ⟨⟨hne, hsize⟩, ⟨fun h => (hname _ h).2.2.1 rfl, fun h => (hname _ h).2.2.2 rfl⟩,
    ⟨?_, ?_⟩, ⟨trivial, trivial⟩, rfl⟩
  · intro hhead
    exact hslash (List.mem_of_mem_head? (by rw [hhead]; rfl))
  · intro hdots
    have hmem : '.' ∈ s.toList := by
      rw [← List.mem_singleton.mp hdots]
      exact List.mem_cons_self
    exact (hname _ hmem).2.1 rfl

/-- A path of one repeated letter, which takes two bytes and is encoded as six. -/
def longPath (n : Nat) : String := String.ofList (List.replicate n 'é')

theorem relativePath_longPath {n : Nat} (h : 1 ≤ n ∧ n ≤ 512) (field : String) :
    relativePath field (longPath n) = .ok (longPath n) := by
  refine relativePath_name ?_ ?_ ?_ field
  · intro hempty
    have := congrArg String.length hempty
    rw [longPath, String.length_ofList, List.length_replicate] at this
    exact absurd this (by simp; omega)
  · rw [longPath, utf8ByteSize_ofList, byteSize, List.map_replicate, List.sum_replicate_nat,
      show Char.utf8Size 'é' = 2 from rfl]
    omega
  · intro c hc
    rw [longPath, String.toList_ofList] at hc
    rw [List.eq_of_mem_replicate hc]
    decide

/-- The encoding of a long path. -/
theorem length_dump_longPath (n : Nat) : (dump (jsonString (longPath n))).length = 2 + 6 * n := by
  rw [jsonString, dump, length_dumpString, stringSize, Text.ofString, longPath,
    String.toList_ofList, List.map_replicate, List.map_replicate, List.sum_replicate_nat,
    show escapeSize 'é'.toNat = 6 from rfl]
  omega

theorem longPath_injective : Function.Injective longPath := by
  intro m n h
  have := congrArg String.length h
  rwa [longPath, longPath, String.length_ofList, String.length_ofList, List.length_replicate,
    List.length_replicate] at this

/-- 32 packages with long names. -/
def longConfiguration : DeploymentConfiguration where
  schemaVersion := 1
  runtime := "node"
  packages := (List.range 32).map fun i => longPath (400 + i)
  buildScript := none
  startScript := "start"
  port := 3000
  healthPath := "/"
  storageBindings := []

theorem longConfiguration_valid : longConfiguration.Valid := by
  have hpath : ∀ p ∈ longConfiguration.packages, packagePath (jsonString p) = .ok p := by
    intro p hp
    obtain ⟨i, hi, rfl⟩ := List.mem_map.mp hp
    have hlt := List.mem_range.mp hi
    rw [packagePath, jsonString, asText]
    simp only [Text.toString?_ofString, validated_eq_ok]
    exact relativePath_longPath (by omega) _
  have hread : ∀ ps : List String, (∀ p ∈ ps, packagePath (jsonString p) = .ok p) →
      (ps.map jsonString).mapM packagePath = .ok ps := by
    intro ps
    induction ps with
    | nil => exact fun _ => rfl
    | cons p ps ih =>
      intro h
      rw [List.map_cons, List.mapM_cons]
      simp only [bind_eq_ok]
      exact ⟨p, h p List.mem_cons_self, ps, ih fun q hq => h q (List.mem_cons_of_mem _ hq), rfl⟩
  refine ⟨rfl, .inl rfl, ⟨by decide, ?_, hpath, hread _ hpath, ?_⟩, fun s hs => absurd hs (by
    simp [longConfiguration]), by decide, by decide, by rfl, ⟨fun b hb => absurd hb (by
    simp [longConfiguration]), List.nodup_nil, List.nodup_nil⟩, by decide, List.Pairwise.nil⟩
  · rw [longConfiguration, List.length_map, List.length_range]
  · refine List.Nodup.map ?_ List.nodup_range
    intro i j hij
    have := longPath_injective hij
    omega

/-- The canonical text of the long configuration takes 80034 bytes. -/
theorem length_longConfiguration : longConfiguration.canonicalJson.length = 80034 := by
  rw [length_canonicalJson longConfiguration_valid]
  have hpackages : (longConfiguration.packages.map fun p => (dump (jsonString p)).length) =
      (List.range 32).map fun i => 2 + 6 * (400 + i) := by
    rw [longConfiguration, List.map_map]
    exact List.map_congr_left fun i _ => length_dump_longPath (400 + i)
  rw [hpackages]
  decide +kernel

/-- An accepted payload survives its own storage exactly when its canonical text takes no more
than the parser's limit.  The limit is checked on a payload that comes as a text and never on the
text that is stored, which is longer where characters are escaped. -/
theorem round_trip_iff (sha256 : Text → String) {payload : Payload} {c : DeploymentConfiguration}
    (h : parseConfiguration payload = .ok c) :
    (RoundTrips c ∧ Readable sha256 c) ↔ payload.encodedSize ≤ 65536 := by
  obtain ⟨hvalid, hsize⟩ := parseConfiguration_ok h
  rw [hsize]
  constructor
  · rintro ⟨hround, -⟩
    exact (roundTrips_iff hvalid).mp hround
  · intro hle
    exact ⟨(roundTrips_iff hvalid).mpr hle, readable_of_size hvalid hle⟩

/-- The long configuration is accepted as a mapping, its canonical text is refused, and the call
that creates an attempt with it raises with the row committed. -/
theorem long_configuration_unreadable :
    parseConfiguration (.mapping longConfiguration.sortedDocument
        (distinctKeys_sortedDocument longConfiguration_valid)) = .ok longConfiguration ∧
      parseConfiguration (.text longConfiguration.canonicalJson) =
        .error (.validation "deployment configuration exceeds its size limit") ∧
      ∀ sha256 : Text → String, (∀ t, isSha256Hex (sha256 t) = true) →
        ∃ db' row e, createDeploymentAttempt sha256 (claimedAttempt longConfiguration) 0
            claimedDatabase = (db', .error e) ∧
          claimedDatabase.attempts.lookup (claimedAttempt longConfiguration).deploymentId = none ∧
          db'.attempts.lookup (claimedAttempt longConfiguration).deploymentId = some row := by
  have hsize : ¬ longConfiguration.canonicalJson.length ≤ maxConfigurationBytes := by
    rw [length_longConfiguration]
    decide
  have hparse := parseConfiguration_canonicalJson longConfiguration_valid
  rw [if_neg hsize] at hparse
  refine ⟨?_, hparse, ?_⟩
  · rw [parseConfiguration_mapping, parseDocument_sortedDocument longConfiguration_valid]
  intro sha256 hsha
  obtain ⟨db', row, hcreate, hnone, hrow⟩ := exists_unreadable hsha longConfiguration_valid hsize
  exact ⟨db', row, _, hcreate, hnone, hrow⟩

/-- A configuration with one package. -/
def smallConfiguration : DeploymentConfiguration where
  schemaVersion := 1
  runtime := "node"
  packages := ["."]
  buildScript := none
  startScript := "start"
  port := 3000
  healthPath := "/health"
  storageBindings := []

theorem smallConfiguration_distinct : distinctKeys smallConfiguration.sortedDocument = true := by
  decide

theorem parseConfiguration_small :
    parseConfiguration (.mapping smallConfiguration.sortedDocument smallConfiguration_distinct) =
      .ok smallConfiguration := by
  rfl

/-- A configuration with one package survives its storage. -/
theorem small_configuration_round_trips :
    RoundTrips smallConfiguration ∧
      Readable (fun _ => "cc63cf4a8d9554df7424de977b66d9b6327e0a56344b84b592e08836e1a4c04a")
        smallConfiguration :=
  (round_trip_iff _ parseConfiguration_small).mpr (by decide +kernel)

end Controller
end OpenstackPlatform
