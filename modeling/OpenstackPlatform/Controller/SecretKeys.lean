import Mathlib
import OpenstackPlatform.Library.Checks
import OpenstackPlatform.Library.Dictionary
import OpenstackPlatform.Library.Lines
import OpenstackPlatform.Controller.StorageContract

/-!
# Keys of stored credentials

The provider of a resource names its values by familiar environment keys; an app's variable holds
them under keys that name the type, the resource and the output.  `canonicalSecretKey` gives every
output of every resource a key of its own, and the two translations undo each other.

* `environmentKeys`, `providerEnvironmentKeys`, `storedMapping`: the tables of the contract.
* `canonicalizeEnvironment`, `providerEnvironment`: the two translations.
* `encodeChar`, `decodeChar`: how the characters of a name are written in a key.
* `secretKey_injective`, `isEnvKey_secretKey`: keys are distinct, and names of variables.
* `canonicalSecretKey_roundTrip`: the keys are distinct and reserved, and what is stored is read back.
-/

namespace OpenstackPlatform
namespace Controller

open Library Validation

/-! ## The translations -/

/-- `ENVIRONMENT_KEYS` -/
def environmentKeys : ResourceType → List String
  | .postgres =>
    ["DATABASE_URL", "PGHOST", "PGPORT", "PGDATABASE", "PGUSER", "PGPASSWORD", "PGSSLMODE",
      "PGSSLROOTCERT"]
  | .mongo => ["MONGODB_URI"]
  | .s3 =>
    ["AWS_ENDPOINT_URL_S3", "AWS_REGION", "AWS_ACCESS_KEY_ID", "AWS_SECRET_ACCESS_KEY",
      "S3_ENDPOINT", "S3_BUCKET"]

/-- `_PROVIDER_ENVIRONMENT_KEYS` -/
def providerEnvironmentKeys : ResourceType → List (String × String)
  | .postgres => ResourceType.postgres.outputs.zip (environmentKeys .postgres)
  | .mongo => [("uri", "MONGODB_URI")]
  | .s3 =>
    [("endpoint", "AWS_ENDPOINT_URL_S3"), ("region", "AWS_REGION"),
      ("access_key_id", "AWS_ACCESS_KEY_ID"), ("secret_access_key", "AWS_SECRET_ACCESS_KEY"),
      ("bucket", "S3_BUCKET")]

/-- `_stored_mapping` -/
def storedMapping (resourceType : ResourceType) : List (String × String) :=
  (providerEnvironmentKeys resourceType).filter fun item =>
    (storedOutputs resourceType).contains item.1

/-- What a translation raises: a validation error, or a `KeyError` for a name. -/
inductive TranslationError where
  | contract (error : Error)
  | key (name : String)
  deriving DecidableEq, Repr

/-- `values[key]` -/
def valueAt (values : Table String String) (key : String) : Except TranslationError String :=
  match values.lookup key with
  | some value => .ok value
  | none => .error (.key key)

/-- A validation of a translation. -/
def translationCheck (condition : Bool) (message : String) : Except TranslationError Unit :=
  Checks.demand condition (.contract (.validation message))

/-- The endpoint of a bucket is provided twice, with one value. -/
def checkEndpoints (resourceType : ResourceType) (values : Table String String) :
    Except TranslationError Unit :=
  if resourceType = .s3 then do
    let endpoint ← valueAt values "AWS_ENDPOINT_URL_S3"
    let s3Endpoint ← valueAt values "S3_ENDPOINT"
    translationCheck (endpoint == s3Endpoint) "provider endpoint outputs conflict"
  else return ()

/-- An item of the mapping, as it is stored. -/
def storedItem (resourceType : ResourceType) (name : String) (values : Table String String)
    (item : String × String) : Except TranslationError (String × String) := do
  let key ← (canonicalSecretKey resourceType name item.1).mapError .contract
  let value ← valueAt values item.2
  return (key, value)

/-- `canonicalize_environment` -/
def canonicalizeEnvironment (resourceType : ResourceType) (name : String)
    (values : Table String String) : Except TranslationError (Table String String) := do
  let mapping := storedMapping resourceType
  translationCheck (values.hasKeys (environmentKeys resourceType))
    "provider environment outputs are incomplete"
  checkEndpoints resourceType values
  let items ← mapping.mapM (storedItem resourceType name values)
  return Table.ofItems items

/-- An item of the mapping, as the provider has it. -/
def providerItem (resourceType : ResourceType) (name : String) (values : Table String String)
    (item : String × String) : Except TranslationError (String × String) := do
  let key ← (canonicalSecretKey resourceType name item.1).mapError .contract
  let value ← valueAt values key
  return (item.2, value)

/-- `provider_environment` -/
def providerEnvironment (resourceType : ResourceType) (name : String)
    (values : Table String String) : Except TranslationError (Table String String) := do
  let mapping := storedMapping resourceType
  let expected ← (canonicalSecretKeys resourceType name).mapError .contract
  translationCheck (values.hasKeys expected) "managed-storage secret outputs are incomplete"
  let items ← mapping.mapM (providerItem resourceType name values)
  let result := Table.ofItems items
  if resourceType = .s3 then
    let endpoint ← valueAt result "AWS_ENDPOINT_URL_S3"
    return result.insert "S3_ENDPOINT" endpoint
  return result

/-! ## Characters of a key -/

/-- How a character of a name is written in a key. -/
def encodeChar (c : Char) : Char := Char.toUpper (if c = '-' then '_' else c)

/-- Which character of a name is written so. -/
def decodeChar (d : Char) : Char := if d = '_' then '-' else d.toLower

/-- A character that a name or an output may have. -/
def isNameChar (c : Char) : Bool := isLowerAlnum c || c == '-' || c == '_'

/-- A character that the name of a variable may have. -/
def isKeyChar (c : Char) : Bool := c.isUpper || c.isDigit || c == '_'

theorem isNameChar_lt {c : Char} (h : isNameChar c = true) : c.toNat < 128 := by
  simp only [isNameChar, isLowerAlnum, Bool.or_eq_true, beq_iff_eq] at h
  rcases h with ((h | h) | rfl) | rfl
  · simp only [Char.isDigit, Bool.and_eq_true, decide_eq_true_eq] at h
    have := h.2
    simp only [UInt32.le_iff_toNat_le] at this
    exact Nat.lt_of_le_of_lt this (by decide)
  · simp only [Char.isLower, Bool.and_eq_true, decide_eq_true_eq] at h
    have := h.2
    simp only [UInt32.le_iff_toNat_le] at this
    exact Nat.lt_of_le_of_lt this (by decide)
  · decide
  · decide

/-- A property of the ASCII characters is checked on each of them. -/
theorem of_ascii {P : Char → Prop} [DecidablePred P]
    (h : ∀ i : Fin 128, P (Char.ofNat i)) {c : Char} (hc : c.toNat < 128) : P c := by
  have := h ⟨c.toNat, hc⟩
  rwa [Char.ofNat_toNat] at this

theorem decodeChar_encodeChar {c : Char} (h : isNameChar c = true) (hmark : c ≠ '_') :
    decodeChar (encodeChar c) = c := by
  have hall : ∀ i : Fin 128, isNameChar (Char.ofNat i) = true → Char.ofNat i ≠ '_' →
      decodeChar (encodeChar (Char.ofNat i)) = Char.ofNat i := by
    decide +kernel
  exact of_ascii (P := fun c => isNameChar c = true → c ≠ '_' → decodeChar (encodeChar c) = c)
    hall (isNameChar_lt h) h hmark

theorem isKeyChar_encodeChar {c : Char} (h : isNameChar c = true) :
    isKeyChar (encodeChar c) = true := by
  have hall : ∀ i : Fin 128, isNameChar (Char.ofNat i) = true →
      isKeyChar (encodeChar (Char.ofNat i)) = true := by
    decide +kernel
  exact of_ascii (P := fun c => isNameChar c = true → isKeyChar (encodeChar c) = true)
    hall (isNameChar_lt h) h

/-! ## Names in a key -/

/-- What the pattern of a resource name says of its characters. -/
structure IsNameText (text : List Char) : Prop where
  chars : ∀ c ∈ text, isNameChar c = true ∧ c ≠ '_'
  length : text.length ≤ 40
  last : ∀ c ∈ text.getLast?, isLowerAlnum c = true
  noPair : ¬ ['-', '-'] <:+: text

variable {text : List Char}

theorem not_infix_of_contains {piece : List Char} (h : contains piece text = false) :
    ¬ piece <:+: text := by
  intro hinfix
  obtain ⟨suffix, hhead, hsuffix⟩ := List.infix_iff_prefix_suffix.mp hinfix
  rw [contains, List.any_eq_false] at h
  exact h suffix ((List.mem_tails _ _).mpr hsuffix) (List.isPrefixOf_iff_prefix.mpr hhead)

theorem isNameChar_of_isLowerAlnum {c : Char} (h : isLowerAlnum c = true) :
    isNameChar c = true ∧ c ≠ '_' := by
  refine ⟨by rw [isNameChar, h, Bool.true_or, Bool.true_or], ?_⟩
  rintro rfl
  cases h

variable {name : String}

theorem isNameText_of_isResourceName (h : isResourceName name = true) : IsNameText name.toList := by
  rw [isResourceName] at h
  split at h
  · cases h
  · rename_i c cs hs
    simp only [Bool.and_eq_true, Bool.not_eq_true', decide_eq_true_eq, List.all_eq_true,
      Bool.or_eq_true, beq_iff_eq] at h
    obtain ⟨⟨⟨⟨hc, hlength⟩, hcs⟩, hlast⟩, hpair⟩ := h
    have hc' : isLowerAlnum c = true := by rw [isLowerAlnum, hc, Bool.or_true]
    rw [hs]
    refine ⟨?_, ?_, ?_, not_infix_of_contains hpair⟩
    · intro d hd
      rcases List.mem_cons.mp hd with rfl | hd
      · exact isNameChar_of_isLowerAlnum hc'
      · rcases hcs d hd with hd | rfl
        · exact isNameChar_of_isLowerAlnum hd
        · exact ⟨by decide, by decide⟩
    · rw [List.length_cons]
      omega
    · intro d hd
      by_cases hnil : cs = []
      · subst hnil
        obtain rfl : c = d := by simpa using hd
        exact hc'
      · rw [List.getLast?_cons, Option.mem_some_iff] at hd
        have he := List.getLast?_eq_some_getLast hnil
        rw [he, Option.getD_some] at hd
        rw [he, Option.all_some] at hlast
        exact hd ▸ hlast

/-- A written name is read back. -/
theorem map_decodeChar (h : IsNameText text) : (text.map encodeChar).map decodeChar = text := by
  rw [List.map_map]
  calc text.map (decodeChar ∘ encodeChar) = text.map id :=
        List.map_congr_left fun c hc => decodeChar_encodeChar (h.chars c hc).1 (h.chars c hc).2
    _ = text := List.map_id text

theorem not_pair_encoded (h : IsNameText text) : ¬ ['_', '_'] <:+: text.map encodeChar := by
  intro hpair
  have hdecoded := hpair.map decodeChar
  rw [map_decodeChar h] at hdecoded
  exact h.noPair hdecoded

theorem getLast?_encoded (h : IsNameText text) : (text.map encodeChar).getLast? ≠ some '_' := by
  rw [List.getLast?_map]
  intro hlast
  obtain ⟨c, hc, hmark⟩ := Option.map_eq_some_iff.mp hlast
  have halnum := h.last c hc
  have hchar := isNameChar_of_isLowerAlnum halnum
  have hdecoded := decodeChar_encodeChar hchar.1 hchar.2
  rw [hmark] at hdecoded
  rw [← hdecoded] at halnum
  cases halnum

theorem encoded_injective {text' : List Char} (h : IsNameText text) (h' : IsNameText text')
    (heq : text.map encodeChar = text'.map encodeChar) : text = text' := by
  rw [← map_decodeChar h, ← map_decodeChar h', heq]

/-! ## Keys -/

/-- How a type is written in a key. -/
def typeCode (resourceType : ResourceType) : List Char :=
  resourceType.name.toList.map Char.toUpper

/-- How an output is written in a key. -/
def outputCode (output : String) : List Char := output.toList.map Char.toUpper

theorem mark_notMem_typeCode (resourceType : ResourceType) : '_' ∉ typeCode resourceType := by
  cases resourceType <;> decide

variable {t : ResourceType}

theorem typeCode_injective {t' : ResourceType} (h : typeCode t = typeCode t') : t = t' := by
  cases t <;> cases t' <;> first | rfl | cases h

variable {output : String}

theorem outputCode_injective {output' : String} (h : output ∈ t.outputs) (h' : output' ∈ t.outputs)
    (heq : outputCode output = outputCode output') : output = output' := by
  have hall : ∀ a ∈ t.outputs, ∀ b ∈ t.outputs, outputCode a = outputCode b → a = b := by
    cases t <;> decide
  exact hall output h output' h' heq

theorem toList_secretKey (t : ResourceType) (name output : String) :
    (secretKey t name output).toList =
      reservedEnvironmentPrefix.toList ++ (typeCode t ++ '_' ::
        ('_' :: (name.toList.map encodeChar ++ '_' :: '_' :: outputCode output))) := by
  have hmark : "__".toList = ['_', '_'] := rfl
  rw [secretKey, upper, upper, upper]
  simp only [String.toList_append, String.toList_ofList, List.map_map, List.append_assoc, hmark,
    List.cons_append, List.nil_append]
  rfl

/-- A key names the type, the resource and the output. -/
theorem secretKey_injective {t' : ResourceType} {name' output' : String}
    (hname : IsNameText name.toList) (hname' : IsNameText name'.toList)
    (houtput : output ∈ t.outputs) (houtput' : output' ∈ t'.outputs)
    (h : secretKey t name output = secretKey t' name' output') :
    t = t' ∧ name = name' ∧ output = output' := by
  have hlists := congrArg String.toList h
  rw [toList_secretKey, toList_secretKey] at hlists
  have hrest := List.append_cancel_left hlists
  -- a type has no mark, so that the first mark ends it
  obtain ⟨htype, htail⟩ :=
    append_cons_inj (mark_notMem_typeCode t) (mark_notMem_typeCode t') hrest
  obtain rfl := typeCode_injective htype
  -- a name has no doubled mark and does not end in one, so that the next doubled mark ends it
  obtain ⟨hnames, houtputs⟩ := append_pair_inj (not_pair_encoded hname) (getLast?_encoded hname)
    (not_pair_encoded hname') (getLast?_encoded hname') (List.cons.inj htail).2
  exact ⟨rfl, String.toList_injective (encoded_injective hname hname' hnames),
    outputCode_injective houtput houtput' houtputs⟩

theorem isKeyChar_outputCode (h : output ∈ t.outputs) :
    (∀ c ∈ outputCode output, isKeyChar c = true) ∧ (outputCode output).length ≤ 17 := by
  have hall : ∀ a ∈ t.outputs,
      (∀ c ∈ outputCode a, isKeyChar c = true) ∧ (outputCode a).length ≤ 17 := by
    cases t <;> decide
  exact hall output h

theorem isKeyChar_typeCode (t : ResourceType) :
    (∀ c ∈ typeCode t, isKeyChar c = true) ∧ (typeCode t).length ≤ 8 := by
  cases t <;> decide

/-- A key is a name that a variable may have, of at most 78 characters. -/
theorem isEnvKey_secretKey (hname : IsNameText name.toList) (houtput : output ∈ t.outputs) :
    isEnvKey (secretKey t name output) = true := by
  obtain ⟨htype, htypeLength⟩ := isKeyChar_typeCode t
  obtain ⟨hcode, hcodeLength⟩ := isKeyChar_outputCode houtput
  have hreserved : reservedEnvironmentPrefix.toList =
    ['S', 'T', 'O', 'R', 'A', 'G', 'E', '_', '_'] := rfl
  rw [isEnvKey, toList_secretKey, hreserved]
  simp only [List.cons_append, List.nil_append, Bool.and_eq_true, decide_eq_true_eq,
    List.all_eq_true]
  refine ⟨⟨by decide, ?_⟩, ?_⟩
  · have := hname.length
    simp only [List.length_cons, List.length_append, List.length_map]
    omega
  · intro c hc
    show isKeyChar c = true
    simp only [List.mem_cons, List.mem_append, List.mem_map] at hc
    rcases hc with rfl | rfl | rfl | rfl | rfl | rfl | rfl | rfl | hc | rfl | rfl |
      ⟨d, hd, rfl⟩ | rfl | rfl | hc
    all_goals first | decide | skip
    · exact htype c hc
    · exact isKeyChar_encodeChar (hname.chars d hd).1
    · exact hcode c hc

variable {key : String}

theorem canonicalSecretKey_ok_iff : canonicalSecretKey t name output = .ok key ↔
      isResourceName name = true ∧ output ∈ t.outputs ∧ key = secretKey t name output := by
  rw [canonicalSecretKey, bind_eq_ok]
  constructor
  · rintro ⟨⟨⟩, hname, h⟩
    obtain ⟨⟨⟩, houtput, h⟩ := bind_eq_ok.mp h
    have hmem := require_eq_ok.mp houtput
    exact ⟨require_eq_ok.mp hname, List.contains_iff_mem.mp hmem, (Except.ok.inj h).symm⟩
  · rintro ⟨hname, houtput, rfl⟩
    refine ⟨(), require_eq_ok.mpr hname, bind_eq_ok.mpr ⟨(), ?_, rfl⟩⟩
    exact require_eq_ok.mpr (List.contains_iff_mem.mpr houtput)
/-! ## Round trip -/

/-- What a provider hands over: the keys of its type, with one endpoint for a bucket. -/
structure IsEnvironment (t : ResourceType) (values : Table String String) : Prop where
  keys : ∀ key, (values.lookup key).isSome = true ↔ key ∈ environmentKeys t
  endpoint : t = .s3 → values.lookup "AWS_ENDPOINT_URL_S3" = values.lookup "S3_ENDPOINT"

variable {values : Table String String}

theorem valueAt_ok {value : String} :
    valueAt values key = .ok value ↔ values.lookup key = some value := by
  unfold valueAt
  split
  next v hv =>
    rw [hv, Except.ok.injEq, Option.some.injEq]
  next hnone =>
    rw [hnone]
    constructor
    · intro h
      cases h
    · intro h
      cases h

theorem mapError_ok {α : Type} {x : Except Error α} {a : α} :
    x.mapError TranslationError.contract = .ok a ↔ x = .ok a := by
  cases x with
  | ok b => rw [Except.mapError, Except.ok.injEq, Except.ok.injEq]
  | error e =>
    constructor
    · intro h
      cases h
    · intro h
      cases h

theorem translationCheck_ok {condition : Bool} {message : String} :
    translationCheck condition message = .ok () ↔ condition = true :=
  Checks.demand_ok_iff

theorem checkEndpoints_ok
    (hkeys : ∀ key, (values.lookup key).isSome = true ↔ key ∈ environmentKeys t) :
    checkEndpoints t values = .ok () ↔
      (t = .s3 → values.lookup "AWS_ENDPOINT_URL_S3" = values.lookup "S3_ENDPOINT") := by
  unfold checkEndpoints
  by_cases ht : t = .s3
  · subst ht
    obtain ⟨a, ha⟩ := Option.isSome_iff_exists.mp
      ((hkeys "AWS_ENDPOINT_URL_S3").mpr (by decide))
    obtain ⟨b, hb⟩ := Option.isSome_iff_exists.mp ((hkeys "S3_ENDPOINT").mpr (by decide))
    rw [if_pos rfl, Checks.bind_ok_iff, ha, hb]
    constructor
    · rintro ⟨a', ha', h⟩ -
      obtain ⟨b', hb', h⟩ := Checks.bind_ok_iff.mp h
      rw [valueAt_ok, ha] at ha'
      rw [valueAt_ok, hb] at hb'
      rw [ha', hb', eq_of_beq (translationCheck_ok.mp h)]
    · intro h
      refine ⟨a, valueAt_ok.mpr ha, Checks.bind_ok_iff.mpr ⟨b, valueAt_ok.mpr hb, ?_⟩⟩
      rw [translationCheck_ok, Option.some.inj (h rfl), beq_self_eq_true]
  · rw [if_neg ht]
    exact ⟨fun _ h => absurd h ht, fun _ => rfl⟩

/-- The mapping pairs the stored outputs with keys of the provider, each of them once. -/
theorem storedMapping_fst (t : ResourceType) :
    (storedMapping t).map Prod.fst = storedOutputs t := by
  cases t <;> decide

theorem nodup_storedMapping (t : ResourceType) :
    ((storedMapping t).map Prod.fst).Nodup ∧ ((storedMapping t).map Prod.snd).Nodup := by
  cases t <;> decide

variable {item : String × String}

theorem mem_outputs_of_mem_storedMapping (h : item ∈ storedMapping t) : item.1 ∈ t.outputs := by
  have hfst := List.mem_map_of_mem (f := Prod.fst) h
  rw [storedMapping_fst, storedOutputs] at hfst
  exact (List.mem_filter.mp hfst).1

/-- The provider has no other keys, but for the second one of an endpoint. -/
theorem mem_environmentKeys : key ∈ environmentKeys t ↔
      key ∈ (storedMapping t).map Prod.snd ∨ t = .s3 ∧ key = "S3_ENDPOINT" := by
  cases t with
  | postgres =>
    have hkeys : (storedMapping .postgres).map Prod.snd = environmentKeys .postgres := by decide
    rw [hkeys]
    simp
  | mongo =>
    have hkeys : (storedMapping .mongo).map Prod.snd = environmentKeys .mongo := by decide
    rw [hkeys]
    simp
  | s3 =>
    have hkeys : (storedMapping .s3).map Prod.snd =
        ["AWS_ENDPOINT_URL_S3", "AWS_REGION", "AWS_ACCESS_KEY_ID", "AWS_SECRET_ACCESS_KEY",
          "S3_BUCKET"] := by decide
    rw [hkeys, environmentKeys]
    simp only [List.mem_cons, List.not_mem_nil, or_false, true_and]
    tauto

/-- What is stored of an environment. -/
def storedEnvironment (t : ResourceType) (name : String) (values : Table String String) :
    Table String String :=
  .ofItems ((storedMapping t).map fun item =>
    (secretKey t name item.1, (values.lookup item.2).getD ""))

theorem lookup_getD (h : IsEnvironment t values) (hkey : key ∈ environmentKeys t) :
    values.lookup key = some ((values.lookup key).getD "") := by
  obtain ⟨value, hvalue⟩ := Option.isSome_iff_exists.mp ((h.keys key).mpr hkey)
  rw [hvalue, Option.getD_some]

theorem mem_environmentKeys_of_mem (h : item ∈ storedMapping t) : item.2 ∈ environmentKeys t :=
  mem_environmentKeys.mpr (.inl (List.mem_map_of_mem h))

theorem canonicalizeEnvironment_eq (hname : isResourceName name = true)
    (h : IsEnvironment t values) :
    canonicalizeEnvironment t name values = .ok (storedEnvironment t name values) := by
  unfold canonicalizeEnvironment
  refine Checks.bind_ok_iff.mpr ⟨(), translationCheck_ok.mpr (Table.hasKeys_iff.mpr h.keys), ?_⟩
  refine Checks.bind_ok_iff.mpr ⟨(), (checkEndpoints_ok h.keys).mpr h.endpoint, ?_⟩
  refine Checks.bind_ok_iff.mpr ⟨_, Checks.mapM_eq_ok fun item hitem => ?_, rfl⟩
  refine Checks.bind_ok_iff.mpr ⟨secretKey t name item.1, ?_, ?_⟩
  · exact mapError_ok.mpr
      (canonicalSecretKey_ok_iff.mpr ⟨hname, mem_outputs_of_mem_storedMapping hitem, rfl⟩)
  · exact Checks.bind_ok_iff.mpr
      ⟨_, valueAt_ok.mpr (lookup_getD h (mem_environmentKeys_of_mem hitem)), rfl⟩

/-- Only environments of resources with a name are stored. -/
theorem canonicalizeEnvironment_ok {stored : Table String String}
    (h : canonicalizeEnvironment t name values = .ok stored) :
    isResourceName name = true ∧ IsEnvironment t values := by
  unfold canonicalizeEnvironment at h
  obtain ⟨⟨⟩, hkeys, h⟩ := Checks.bind_ok_iff.mp h
  obtain ⟨⟨⟩, hendpoint, h⟩ := Checks.bind_ok_iff.mp h
  obtain ⟨items, hitems, -⟩ := Checks.bind_ok_iff.mp h
  have hkeys := Table.hasKeys_iff.mp (translationCheck_ok.mp hkeys)
  refine ⟨?_, hkeys, (checkEndpoints_ok hkeys).mp hendpoint⟩
  -- every type has an output that is stored, and its key checks the name
  obtain ⟨item, rest, hmapping⟩ : ∃ item rest, storedMapping t = item :: rest := by
    cases t <;> exact ⟨_, _, rfl⟩
  rw [hmapping, List.mapM_cons] at hitems
  obtain ⟨first, hfirst, -⟩ := Checks.bind_ok_iff.mp hitems
  obtain ⟨key, hkey, -⟩ := Checks.bind_ok_iff.mp hfirst
  exact (canonicalSecretKey_ok_iff.mp (mapError_ok.mp hkey)).1

theorem canonicalSecretKeys_eq (hname : isResourceName name = true) :
    canonicalSecretKeys t name = .ok ((storedOutputs t).map (secretKey t name)) :=
  Checks.mapM_eq_ok fun _ houtput =>
    canonicalSecretKey_ok_iff.mpr ⟨hname, (List.mem_filter.mp houtput).1, rfl⟩

theorem nodup_storedKeys (hname : isResourceName name = true) :
    (((storedMapping t).map Prod.fst).map (secretKey t name)).Nodup := by
  have htext := isNameText_of_isResourceName hname
  refine (List.nodup_map_iff_inj_on (nodup_storedMapping t).1).mpr ?_
  intro output houtput output' houtput' heq
  rw [storedMapping_fst] at houtput houtput'
  exact (secretKey_injective htext htext (List.mem_filter.mp houtput).1
    (List.mem_filter.mp houtput').1 heq).2.2

/-- The keys of the stored items are those of the resource. -/
theorem storedKeys_eq (t : ResourceType) (name : String) (values : Table String String) :
    ((storedMapping t).map fun item =>
      (secretKey t name item.1, (values.lookup item.2).getD "")).map Prod.fst =
      ((storedMapping t).map Prod.fst).map (secretKey t name) := by
  rw [List.map_map, List.map_map]
  rfl

theorem lookup_storedEnvironment (hname : isResourceName name = true) (h : IsEnvironment t values)
    (hitem : item ∈ storedMapping t) :
    (storedEnvironment t name values).lookup (secretKey t name item.1) =
      values.lookup item.2 := by
  rw [lookup_getD h (mem_environmentKeys_of_mem hitem)]
  have hstored := List.mem_map_of_mem
    (f := fun item => (secretKey t name item.1, (values.lookup item.2).getD "")) hitem
  refine Table.lookup_ofItems ?_ hstored
  rw [storedKeys_eq]
  exact nodup_storedKeys hname

theorem hasKeys_storedEnvironment (hname : isResourceName name = true)
    (h : IsEnvironment t values) :
    (storedEnvironment t name values).hasKeys ((storedOutputs t).map (secretKey t name)) =
      true := by
  rw [Table.hasKeys_iff, ← storedMapping_fst]
  intro key
  constructor
  · intro hsome
    by_contra hmem
    rw [← storedKeys_eq t name values] at hmem
    rw [storedEnvironment, Table.lookup_ofItems_eq_none hmem] at hsome
    cases hsome
  · intro hmem
    obtain ⟨output, houtput, rfl⟩ := List.mem_map.mp hmem
    obtain ⟨item, hitem, rfl⟩ := List.mem_map.mp houtput
    rw [lookup_storedEnvironment hname h hitem, h.keys]
    exact mem_environmentKeys_of_mem hitem

/-- What the provider gets back, before the second key of an endpoint. -/
def providedItems (t : ResourceType) (values : Table String String) : List (String × String) :=
  (storedMapping t).map fun item => (item.2, (values.lookup item.2).getD "")

theorem lookup_providedItems (h : IsEnvironment t values) (hkey : t = .s3 → key ≠ "S3_ENDPOINT") :
    (Table.ofItems (providedItems t values)).lookup key = values.lookup key := by
  have hfst : (providedItems t values).map Prod.fst = (storedMapping t).map Prod.snd := by
    rw [providedItems, List.map_map]
    rfl
  by_cases hmem : key ∈ (storedMapping t).map Prod.snd
  · obtain ⟨item, hitem, rfl⟩ := List.mem_map.mp hmem
    rw [lookup_getD h (mem_environmentKeys_of_mem hitem)]
    have hprovided : (item.2, (values.lookup item.2).getD "") ∈ providedItems t values :=
      List.mem_map_of_mem hitem
    refine Table.lookup_ofItems ?_ hprovided
    rw [hfst]
    exact (nodup_storedMapping t).2
  · have hnone : values.lookup key = none := by
      rw [← Option.not_isSome_iff_eq_none, h.keys, mem_environmentKeys]
      rintro (hin | ⟨ht, heq⟩)
      · exact hmem hin
      · exact hkey ht heq
    rw [hnone, Table.lookup_ofItems_eq_none]
    rw [hfst]
    exact hmem

/-- What was stored of an environment is read back as that environment. -/
theorem providerEnvironment_storedEnvironment (hname : isResourceName name = true)
    (h : IsEnvironment t values) :
    ∃ back, providerEnvironment t name (storedEnvironment t name values) = .ok back ∧
      ∀ key, back.lookup key = values.lookup key := by
  have hitems : (storedMapping t).mapM
      (providerItem t name (storedEnvironment t name values)) = .ok (providedItems t values) := by
    refine Checks.mapM_eq_ok fun item hitem => ?_
    refine Checks.bind_ok_iff.mpr ⟨secretKey t name item.1, ?_, ?_⟩
    · exact mapError_ok.mpr
        (canonicalSecretKey_ok_iff.mpr ⟨hname, mem_outputs_of_mem_storedMapping hitem, rfl⟩)
    · refine Checks.bind_ok_iff.mpr ⟨_, valueAt_ok.mpr ?_, rfl⟩
      rw [lookup_storedEnvironment hname h hitem]
      exact lookup_getD h (mem_environmentKeys_of_mem hitem)
  have hprovider : providerEnvironment t name (storedEnvironment t name values) =
      if t = .s3 then do
        let endpoint ← valueAt (Table.ofItems (providedItems t values)) "AWS_ENDPOINT_URL_S3"
        return (Table.ofItems (providedItems t values)).insert "S3_ENDPOINT" endpoint
      else return Table.ofItems (providedItems t values) := by
    simp only [providerEnvironment, canonicalSecretKeys_eq hname, hitems]
    show (translationCheck _ _ >>= fun _ => _) = _
    rw [hasKeys_storedEnvironment hname h]
    rfl
  by_cases ht : t = .s3
  · rw [hprovider, if_pos ht]
    have hmem : "AWS_ENDPOINT_URL_S3" ∈ environmentKeys t := by
      subst ht
      decide
    have hendpoint : (Table.ofItems (providedItems t values)).lookup "AWS_ENDPOINT_URL_S3" =
        values.lookup "AWS_ENDPOINT_URL_S3" :=
      lookup_providedItems h fun _ => by decide
    rw [lookup_getD h hmem] at hendpoint
    refine ⟨_, Checks.bind_ok_iff.mpr ⟨_, valueAt_ok.mpr hendpoint, rfl⟩, fun key => ?_⟩
    rw [Table.lookup_insert_ite]
    by_cases hkey : key = "S3_ENDPOINT"
    · rw [if_pos hkey, hkey, ← lookup_getD h hmem, h.endpoint ht]
    · rw [if_neg hkey, lookup_providedItems h fun _ => hkey]
  · rw [hprovider, if_neg ht]
    exact ⟨_, rfl, fun key => lookup_providedItems h fun hs3 => absurd hs3 ht⟩

/-- Keys of stored credentials: outputs of different resources have different keys, a key is the
name of a variable under the reserved prefix, and what is stored of an environment is read back. -/
theorem canonicalSecretKey_roundTrip :
    (∀ t t' name name' output output' key, canonicalSecretKey t name output = .ok key →
      canonicalSecretKey t' name' output' = .ok key →
        t = t' ∧ name = name' ∧ output = output') ∧
    (∀ t name output, isResourceName name = true → output ∈ t.outputs →
      ∃ key, canonicalSecretKey t name output = .ok key ∧ isEnvKey key = true ∧
        reservedEnvironmentPrefix.toList <+: key.toList) ∧
    (∀ t name values,
      ((∃ stored, canonicalizeEnvironment t name values = .ok stored) ↔
        isResourceName name = true ∧ IsEnvironment t values) ∧
      ∀ stored, canonicalizeEnvironment t name values = .ok stored →
        ∃ back, providerEnvironment t name stored = .ok back ∧
          ∀ key, back.lookup key = values.lookup key) := by
  refine ⟨?_, ?_, ?_⟩
  · intro t t' name name' output output' key h h'
    obtain ⟨hname, houtput, rfl⟩ := canonicalSecretKey_ok_iff.mp h
    obtain ⟨hname', houtput', heq⟩ := canonicalSecretKey_ok_iff.mp h'
    exact secretKey_injective (isNameText_of_isResourceName hname)
      (isNameText_of_isResourceName hname') houtput houtput' heq
  · intro t name _ hname houtput
    refine ⟨_, canonicalSecretKey_ok_iff.mpr ⟨hname, houtput, rfl⟩,
      isEnvKey_secretKey (isNameText_of_isResourceName hname) houtput, ?_⟩
    rw [toList_secretKey]
    exact List.prefix_append _ _
  · intro t name values
    refine ⟨⟨fun ⟨_, h⟩ => canonicalizeEnvironment_ok h, fun h =>
      ⟨_, canonicalizeEnvironment_eq h.1 h.2⟩⟩, fun stored h => ?_⟩
    obtain ⟨hname, henvironment⟩ := canonicalizeEnvironment_ok h
    rw [canonicalizeEnvironment_eq hname henvironment] at h
    cases h
    exact providerEnvironment_storedEnvironment hname henvironment

/-- The environment of a bucket. -/
def bucketEnvironment : Table String String :=
  .ofItems [("AWS_ENDPOINT_URL_S3", "https://10.0.0.7:3900"), ("AWS_REGION", "garage"),
    ("AWS_ACCESS_KEY_ID", "GK1"), ("AWS_SECRET_ACCESS_KEY", "s"),
    ("S3_ENDPOINT", "https://10.0.0.7:3900"), ("S3_BUCKET", "b")]

theorem canonicalSecretKey_roundTrip_bucket :
    canonicalSecretKey .s3 "my-data" "bucket" ≠ canonicalSecretKey .s3 "my-data-2" "bucket" ∧
    (∃ key, canonicalSecretKey .s3 "my-data" "access_key_id" = .ok key ∧ isEnvKey key = true ∧
      reservedEnvironmentPrefix.toList <+: key.toList) ∧
    ∃ stored back, canonicalizeEnvironment .s3 "my-data" bucketEnvironment = .ok stored ∧
      providerEnvironment .s3 "my-data" stored = .ok back ∧
      ∀ key, back.lookup key = bucketEnvironment.lookup key := by
  refine ⟨?_, ?_, ?_⟩
  · intro heq
    have hkey : canonicalSecretKey .s3 "my-data" "bucket" = .ok "STORAGE__S3__MY_DATA__BUCKET" := by
      decide
    have hsame := canonicalSecretKey_roundTrip.1 .s3 .s3 "my-data" "my-data-2" "bucket" "bucket" _
      hkey (heq.symm.trans hkey)
    exact absurd hsame.2.1 (by decide)
  · exact canonicalSecretKey_roundTrip.2.1 .s3 "my-data" "access_key_id" (by decide) (by decide)
  · have henvironment : IsEnvironment .s3 bucketEnvironment :=
      ⟨Table.hasKeys_iff.mp (by decide), fun _ => by decide⟩
    obtain ⟨hiff, hback⟩ := canonicalSecretKey_roundTrip.2.2 .s3 "my-data" bucketEnvironment
    obtain ⟨stored, hstored⟩ := hiff.mpr ⟨by decide, henvironment⟩
    obtain ⟨back, hprovider, hlookup⟩ := hback stored hstored
    exact ⟨stored, back, hstored, hprovider, hlookup⟩

end Controller
end OpenstackPlatform
