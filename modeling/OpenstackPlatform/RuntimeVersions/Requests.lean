import OpenstackPlatform.RuntimeVersions.Ranges
import Mathlib.Data.List.TakeWhile

/-!
# The request of a checkout

`runtime_request` of `runtime_versions.py`: which version of its runtime a checkout asks for, from
its `package.json` or from a version file.

A request is one of three kinds (`Origin`).  It can be read again from what it says of itself: a
checkout that has the field of a request with the value of the request, and nothing else, makes the
same request (`runtimeRequest_origin`), unless the request is for `lts/*` or has no text.
-/

namespace OpenstackPlatform
namespace RuntimeVersions

open Library

/-! ## Version files -/

namespace Runtime

/-- The name that configurations have for a runtime. -/
def key : Runtime → String
  | node => "node"
  | bun => "bun"

/-- `VERSION_FILES` -/
def versionFiles : Runtime → List String
  | node => [".nvmrc", ".node-version"]
  | bun => [".bun-version"]

/-- `_EXAMPLES` -/
def exampleText : Runtime → String
  | node => ">=22"
  | bun => "^1.3"

/-- `engines.` with the name of a runtime. -/
def enginesField (runtime : Runtime) : String := "engines." ++ runtime.key

end Runtime

/-- A blank of a version file: `[ \t\r\v\f]` -/
def isFileBlank (c : Char) : Bool :=
  c == ' ' || c == '\t' || c == '\r' || c.toNat == 11 || c.toNat == 12

/-- `strip(" \t\r\v\f")` -/
def stripBlanks (text : List Char) : List Char :=
  ((text.dropWhile isFileBlank).reverse.dropWhile isFileBlank).reverse

/-- What a line asks for: what is before a comment. -/
def lineRequest (line : List Char) : List Char := stripBlanks (line.takeWhile (· ≠ '#'))

/-- The byte order mark. -/
def byteOrderMark : Char := Char.ofNat 0xFEFF

/-- A text without its byte order mark. -/
def withoutMark (text : List Char) : List Char :=
  if text.head? = some byteOrderMark then text.drop 1 else text

/-- `version_file_request`: what the first line that asks for something asks for. -/
def versionFileRequest (text : String) : String :=
  String.ofList ((((withoutMark text.toList).splitOn '\n').map lineRequest |>.find? fun value =>
    !value.isEmpty).getD [])

/-! ## Requests -/

/-- What is read of a `package.json`. -/
structure Package where
  /-- `packageManager`, where it is a text -/
  packageManager : Option String := none
  /-- what `engines` has for a runtime, where it is an object; `some none` is no text -/
  engines : Runtime → Option (Option String) := fun _ => none

namespace RuntimeRequest

/-- `RuntimeRequest.source` -/
def source (request : RuntimeRequest) : String := request.field ++ " " ++ request.value

end RuntimeRequest

/-- `_ALIAS`: `[A-Za-z][A-Za-z0-9/*_.-]*` -/
def isAlias (value : String) : Bool :=
  match value.toList with
  | [] => false
  | c :: rest => c.isAlpha && rest.all fun d => d.isAlphanum || "/*_.-".toList.contains d

/-- `_range_request` -/
def rangeRequest (runtime : Runtime) (field value : String) : Except RequestError RuntimeRequest :=
  if value.length > maximumRequestLength then
    .error (.version (field ++ " is longer than 256 characters."))
  else
    match parseRange value with
    | some versions => checked ⟨runtime, field, value, value, some versions⟩
    | none =>
      if runtime = .node ∧ field ∈ Runtime.node.versionFiles ∧ isAlias value then
        .error (.version (field ++ " asks for" ++ quoted value ++
          ". Use a version number or range, or lts/*."))
      else .error (.version (field ++ quoted value ++ " isn't a valid version range."))

/-- The interval of one release. -/
def only (version : Version) : Interval := ⟨some ⟨version.key, true⟩, some ⟨version.key, true⟩⟩

/-- The version part of a `packageManager` that names Bun. -/
def wantedOf (manager : List Char) : List Char := (manager.drop 4).takeWhile (· ≠ '+')

/-- A `packageManager` that names Bun; it is about the runtime too. -/
def managerRequest (manager : String) : Except RequestError RuntimeRequest :=
  match parseVersion (wantedOf manager.toList) with
  | none => .error (.version ("packageManager" ++ quoted manager ++
      " must name an exact Bun version, like bun@1.3.4."))
  | some version =>
    checked ⟨.bun, "packageManager", "bun@" ++ String.ofList (wantedOf manager.toList),
      String.ofList (wantedOf manager.toList), some ⟨[only version]⟩⟩

/-- The `packageManager` that counts for a runtime. -/
def bunManager (runtime : Runtime) (package : Package) : Option String :=
  match runtime with
  | .node => none
  | .bun => package.packageManager.filter fun manager => "bun@".toList.isPrefixOf manager.toList

/-- The request of the first version file that makes one. -/
def fileRequest (runtime : Runtime) (readFile : String → Except RequestError (Option String)) :
    List String → Except RequestError (Option RuntimeRequest)
  | [] => .ok none
  | name :: rest =>
    match readFile name with
    | .error e => .error e
    | .ok text =>
      let value := (text.map versionFileRequest).getD ""
      if value = "" then fileRequest runtime readFile rest
      else if runtime = .node ∧ value = "lts/*" then
        .ok (some ⟨runtime, name, value, value, none⟩)
      else (rangeRequest runtime name value).map some

/-- `runtime_request` -/
def runtimeRequest (runtime : Runtime) (package : Package)
    (readFile : String → Except RequestError (Option String)) :
    Except RequestError (Option RuntimeRequest) :=
  match bunManager runtime package with
  | some manager => (managerRequest manager).map some
  | none =>
    match package.engines runtime with
    | some (some value) => (rangeRequest runtime runtime.enginesField value).map some
    | some none => .error (.version (runtime.enginesField ++
        " must be a version range in quotes, like \"" ++ runtime.exampleText ++ "\"."))
    | none => fileRequest runtime readFile runtime.versionFiles

/-! ## What a version file asks for -/

theorem head?_dropWhile {α : Type} {p : α → Bool} {l : List α} {c : α}
    (h : (l.dropWhile p).head? = some c) : p c = false := by
  induction l with
  | nil => cases h
  | cons d l ih =>
    rw [List.dropWhile_cons] at h
    split at h
    · exact ih h
    · rename_i hd
      cases h
      exact Bool.eq_false_iff.mpr hd

theorem dropWhile_eq_self {α : Type} {p : α → Bool} {l : List α}
    (h : ∀ c, l.head? = some c → p c = false) : l.dropWhile p = l := by
  cases l with
  | nil => rfl
  | cons c l => rw [List.dropWhile_cons, h c rfl, if_neg (by simp)]

variable {text : List Char}

/-- A text that neither begins nor ends with a blank. -/
theorem stripBlanks_eq_self (hhead : ∀ c, text.head? = some c → isFileBlank c = false)
    (hlast : ∀ c, text.reverse.head? = some c → isFileBlank c = false) :
    stripBlanks text = text := by
  unfold stripBlanks
  rw [dropWhile_eq_self hhead, dropWhile_eq_self hlast, List.reverse_reverse]

theorem stripBlanks_stripBlanks (text : List Char) :
    stripBlanks (stripBlanks text) = stripBlanks text := by
  refine stripBlanks_eq_self (fun c hc => ?_) fun c hc => ?_
  · refine head?_dropWhile (l := text) ?_
    have hsuffix : (text.dropWhile isFileBlank).reverse.dropWhile isFileBlank <:+
        (text.dropWhile isFileBlank).reverse := List.dropWhile_suffix _
    obtain ⟨rest, hrest⟩ := hsuffix
    have hprefix : stripBlanks text ++ rest.reverse = text.dropWhile isFileBlank := by
      rw [stripBlanks, ← List.reverse_append, hrest, List.reverse_reverse]
    rw [← hprefix, List.head?_append, hc, Option.some_or]
  · rw [stripBlanks, List.reverse_reverse] at hc
    exact head?_dropWhile hc

theorem mem_stripBlanks {c : Char} (h : c ∈ stripBlanks text) : c ∈ text := by
  rw [stripBlanks, List.mem_reverse] at h
  have hmem := (List.dropWhile_suffix isFileBlank).subset h
  exact (List.dropWhile_suffix isFileBlank).subset (List.mem_reverse.mp hmem)

/-- What a line asks for has no comment, and is read as itself. -/
theorem lineRequest_lineRequest (line : List Char) :
    lineRequest (lineRequest line) = lineRequest line := by
  have hcomment : ∀ c ∈ lineRequest line, decide (c ≠ '#') = true := fun c hc =>
    List.mem_takeWhile_imp (p := fun c => decide (c ≠ '#')) (mem_stripBlanks hc)
  rw [lineRequest, List.takeWhile_eq_self_iff.mpr hcomment]
  exact stripBlanks_stripBlanks _

theorem mem_lineRequest {line : List Char} {c : Char} (h : c ∈ lineRequest line) : c ∈ line :=
  (List.takeWhile_prefix _).subset (mem_stripBlanks h)

/-- What a version file asks for is what one line asks for. -/
theorem of_versionFileRequest {text : String} (h : versionFileRequest text ≠ "") :
    ∃ line, '\n' ∉ line ∧ (versionFileRequest text).toList = lineRequest line := by
  unfold versionFileRequest at h ⊢
  cases hfind : (((withoutMark text.toList).splitOn '\n').map lineRequest).find? fun value =>
      !value.isEmpty with
  | none =>
    rw [hfind] at h
    exact absurd rfl h
  | some value =>
    obtain ⟨line, hline, rfl⟩ := List.mem_map.mp (List.mem_of_find?_eq_some hfind)
    exact ⟨line, notMem_of_mem_splitOn hline, by rw [Option.getD_some, String.toList_ofList]⟩

/-- A request that is a line of its own is what a file with it asks for. -/
theorem versionFileRequest_eq_self {value : String} (hne : value ≠ "") {line : List Char}
    (hline : '\n' ∉ line) (hvalue : value.toList = lineRequest line)
    (hmark : value.toList.head? ≠ some byteOrderMark) : versionFileRequest value = value := by
  have hsplit : value.toList.splitOn '\n' = [value.toList] := by
    refine List.splitOn_eq_singleton fun hn => hline ?_
    rw [hvalue] at hn
    exact mem_lineRequest hn
  have hself : lineRequest value.toList = value.toList := by
    rw [hvalue]
    exact lineRequest_lineRequest line
  have hempty : (!value.toList.isEmpty) = true := by
    rw [Bool.not_eq_true', List.isEmpty_eq_false_iff]
    exact fun hnil => hne (String.toList_eq_nil_iff.mp hnil)
  rw [versionFileRequest, withoutMark, if_neg hmark, hsplit, List.map_singleton, hself,
    List.find?_singleton, if_pos hempty, Option.getD_some, String.ofList_toList]

/-! ## Exact versions -/

/-- What is read as an exact version is its three numbers with dots between them. -/
theorem parseVersion_eq_some_iff {version : Version} : parseVersion text = some version ↔
      text = List.intercalate ['.'] [Nat.toDigits 10 version.major, Nat.toDigits 10 version.minor,
        Nat.toDigits 10 version.patch] ∧
      version.major < unbounded ∧ version.minor < unbounded ∧ version.patch < unbounded := by
  have hmapM : ∀ a b c, (text.splitOn '.').mapM number = some [a, b, c] ↔
      text.splitOn '.' = [Nat.toDigits 10 a, Nat.toDigits 10 b, Nat.toDigits 10 c] ∧
        a < unbounded ∧ b < unbounded ∧ c < unbounded := by
    intro a b c
    rw [mapM_eq_some_iff fun p n => @number_eq_some_iff p n]
    generalize text.splitOn '.' = parts
    constructor
    · intro h
      cases h with
      | cons ha h =>
        cases h with
        | cons hb h =>
          cases h with
          | cons hc h =>
            cases h
            exact ⟨by rw [ha.1, hb.1, hc.1], ha.2, hb.2, hc.2⟩
    · rintro ⟨hsplit, ha, hb, hc⟩
      subst hsplit
      exact .cons ⟨rfl, ha⟩ (.cons ⟨rfl, hb⟩ (.cons ⟨rfl, hc⟩ .nil))
  have hjoin : List.intercalate ['.'] (text.splitOn '.') = text := List.intercalate_splitOn '.'
  unfold parseVersion
  constructor
  · intro h
    split at h
    next a b c hparts =>
      cases h
      obtain ⟨hsplit, hbounds⟩ := (hmapM a b c).mp hparts
      rw [hsplit] at hjoin
      exact ⟨hjoin.symm, hbounds⟩
    next => cases h
  · rintro ⟨htext, hbounds⟩
    have hdot : ∀ n : ℕ, '.' ∉ Nat.toDigits 10 n := fun n hn =>
      absurd (Nat.isDigit_of_mem_toDigits (by decide) (by decide) hn) (by decide)
    have hsplit : text.splitOn '.' = [Nat.toDigits 10 version.major,
        Nat.toDigits 10 version.minor, Nat.toDigits 10 version.patch] := by
      rw [htext]
      refine List.splitOn_intercalate '.' (fun p hp => ?_) (by simp)
      simp only [List.mem_cons, List.not_mem_nil, or_false] at hp
      rcases hp with rfl | rfl | rfl
      · exact hdot _
      · exact hdot _
      · exact hdot _
    rw [(hmapM _ _ _).mpr ⟨hsplit, hbounds⟩]

/-- The text of an exact version is short. -/
theorem length_of_parseVersion {version : Version} (h : parseVersion text = some version) :
    text.length ≤ 29 := by
  obtain ⟨rfl, hmajor, hminor, hpatch⟩ := parseVersion_eq_some_iff.mp h
  have hlength : ∀ n : ℕ, n < unbounded → (Nat.toDigits 10 n).length ≤ 9 := fun n hn =>
    (Nat.length_toDigits_le_iff (b := 10) (n := n) (k := 9) (by decide) (by decide)).mpr hn
  have ha := hlength _ hmajor
  have hb := hlength _ hminor
  have hc := hlength _ hpatch
  rw [intercalate_cons_cons, intercalate_cons_cons, intercalate_singleton]
  simp only [List.length_append, List.length_cons]
  omega

/-- A plus sign is in no exact version. -/
theorem plus_notMem_of_parseVersion {version : Version} (h : parseVersion text = some version) :
    '+' ∉ text := by
  obtain ⟨rfl, -⟩ := parseVersion_eq_some_iff.mp h
  intro hmem
  rcases mem_intercalate hmem with hdot | ⟨p, hp, hc⟩
  · cases hdot
  · have hdigit : ∀ n : ℕ, '+' ∉ Nat.toDigits 10 n := fun n hn =>
      absurd (Nat.isDigit_of_mem_toDigits (by decide) (by decide) hn) (by decide)
    simp only [List.mem_cons, List.not_mem_nil, or_false] at hp
    rcases hp with rfl | rfl | rfl
    · exact hdigit _ hc
    · exact hdigit _ hc
    · exact hdigit _ hc

/-! ## Where a request is from -/

variable {request : RuntimeRequest}

theorem of_checked {request' : RuntimeRequest} (h : checked request = .ok request') :
    request' = request := by
  unfold checked at h
  split at h
  next => cases h
  next =>
    split at h
    next => cases h
    next =>
      split at h
      next => exact (Except.ok.inj h).symm
      next => cases h

variable {runtime : Runtime}

theorem of_rangeRequest {field value : String}
    (h : rangeRequest runtime field value = .ok request) :
    value.length ≤ maximumRequestLength ∧ ∃ versions, parseRange value = some versions ∧
      request = ⟨runtime, field, value, value, some versions⟩ := by
  unfold rangeRequest at h
  split at h
  next => cases h
  next hlength =>
    refine ⟨by omega, ?_⟩
    split at h
    next versions hversions => exact ⟨versions, hversions, of_checked h⟩
    next => split at h <;> cases h

/-- What makes a request: a `packageManager`, a range of `engines`, or a version file. -/
inductive Origin (runtime : Runtime) (request : RuntimeRequest) : Prop
  | manager (hruntime : runtime = .bun) (hfield : request.field = "packageManager")
      (wanted : List Char) (hvalue : request.value.toList = "bun@".toList ++ wanted)
      (version : Version) (hversion : parseVersion wanted = some version)
      (hrequest : managerRequest request.value = .ok request)
  | engines (hfield : request.field = runtime.enginesField)
      (hrequest : rangeRequest runtime runtime.enginesField request.value = .ok request)
  | file (hfield : request.field ∈ runtime.versionFiles) (hne : request.value ≠ "")
      (hlts : ¬ (runtime = .node ∧ request.value = "lts/*")) (line : List Char)
      (hline : '\n' ∉ line) (hvalue : request.value.toList = lineRequest line)
      (hrequest : rangeRequest runtime request.field request.value = .ok request)
  | lts (hruntime : runtime = .node) (hfield : request.field ∈ Runtime.node.versionFiles)
      (hrequest : request = ⟨.node, request.field, "lts/*", "lts/*", none⟩)

theorem wantedOf_append {wanted : List Char} (h : '+' ∉ wanted) :
    wantedOf ("bun@".toList ++ wanted) = wanted := by
  have hdrop : ("bun@".toList ++ wanted).drop 4 = wanted := rfl
  rw [wantedOf, hdrop, List.takeWhile_eq_self_iff]
  intro c hc
  rw [decide_eq_true_eq]
  rintro rfl
  exact h hc

theorem origin_of_manager {manager : String} (h : managerRequest manager = .ok request) :
    Origin .bun request := by
  unfold managerRequest at h
  split at h
  next => cases h
  next version hversion =>
    obtain rfl := of_checked h
    have hvalue : ("bun@" ++ String.ofList (wantedOf manager.toList)).toList =
        "bun@".toList ++ wantedOf manager.toList := by
      rw [String.toList_append, String.toList_ofList, String.toList_ofList]
    refine .manager rfl rfl _ hvalue version hversion ?_
    unfold managerRequest
    rw [hvalue, wantedOf_append (plus_notMem_of_parseVersion hversion), hversion]
    exact h

theorem origin_of_file {runtime : Runtime}
    {readFile : String → Except RequestError (Option String)} {request : RuntimeRequest} :
    ∀ {names : List String}, (∀ name ∈ names, name ∈ runtime.versionFiles) →
      fileRequest runtime readFile names = .ok (some request) → Origin runtime request
  | [], _, h => by cases h
  | name :: rest, hnames, h => by
    have hname := hnames name List.mem_cons_self
    rw [fileRequest] at h
    split at h
    next => cases h
    next text _ =>
      dsimp only at h
      split at h
      next => exact origin_of_file (fun n hn => hnames n (List.mem_cons_of_mem _ hn)) h
      next hne =>
        cases text with
        | none => exact absurd rfl hne
        | some text =>
          rw [Option.map_some, Option.getD_some] at h hne
          split at h
          next hlts =>
            cases Except.ok.inj h
            rw [hlts.1] at hname
            refine .lts hlts.1 hname ?_
            rw [hlts.1, hlts.2]
          next hlts =>
            cases hrange : rangeRequest runtime name (versionFileRequest text) with
            | error e =>
              rw [hrange] at h
              cases h
            | ok found =>
              rw [hrange] at h
              cases Except.ok.inj h
              obtain ⟨-, versions, -, rfl⟩ := of_rangeRequest hrange
              obtain ⟨line, hline, hvalue⟩ := of_versionFileRequest hne
              exact .file hname hne hlts line hline hvalue hrange

/-- **Where a request is from.** -/
theorem origin_of_runtimeRequest {package : Package}
    {readFile : String → Except RequestError (Option String)}
    (h : runtimeRequest runtime package readFile = .ok (some request)) :
    Origin runtime request := by
  unfold runtimeRequest at h
  split at h
  next manager hmanager =>
    cases runtime with
    | node => cases hmanager
    | bun =>
      cases hrequest : managerRequest manager with
      | error e =>
        rw [hrequest] at h
        cases h
      | ok found =>
        rw [hrequest] at h
        cases Except.ok.inj h
        exact origin_of_manager hrequest
  next =>
    split at h
    next value _ =>
      cases hrange : rangeRequest runtime runtime.enginesField value with
      | error e =>
        rw [hrange] at h
        cases h
      | ok found =>
        rw [hrange] at h
        cases Except.ok.inj h
        obtain ⟨-, versions, -, rfl⟩ := of_rangeRequest hrange
        exact .engines rfl hrange
    next => cases h
    next => exact origin_of_file (fun name hname => hname) h

/-! ## Reading a request again -/

/-- A field of a `package.json`. -/
def isPackageField (field : String) : Bool :=
  field == "packageManager" || "engines.".toList.isPrefixOf field.toList

/-- The `package.json` that has one field. -/
def packageWith (runtime : Runtime) (field value : String) : Package :=
  if field == "packageManager" then { packageManager := some value }
  else if "engines.".toList.isPrefixOf field.toList then
    { engines := fun other => if other = runtime then some (some value) else none }
  else {}

/-- The version files of which one has a text. -/
def filesWith (field value : String) : String → Except RequestError (Option String) := fun name =>
  .ok (if name = field ∧ isPackageField field = false then some value else none)

theorem isPackageField_of_mem {field : String} (h : field ∈ runtime.versionFiles) :
    isPackageField field = false := by
  cases runtime with
  | node =>
    simp only [Runtime.versionFiles, List.mem_cons, List.not_mem_nil, or_false] at h
    rcases h with rfl | rfl
    · decide
    · decide
  | bun =>
    obtain rfl := List.mem_singleton.mp h
    decide

theorem packageWith_of_mem {runtime' : Runtime} {field : String} (value : String)
    (h : field ∈ runtime.versionFiles) : packageWith runtime' field value = {} := by
  have hnot := isPackageField_of_mem h
  rw [isPackageField, Bool.or_eq_false_iff] at hnot
  rw [packageWith, hnot.1, hnot.2]
  rfl

/-- A range has no byte order mark. -/
theorem head?_of_parseRange {value : String} {versions : VersionRange}
    (h : parseRange value = some versions) : value.toList.head? ≠ some byteOrderMark := by
  unfold parseRange at h
  split at h
  next => cases h
  next hchars =>
    rw [not_or, Bool.not_eq_true', Bool.not_eq_false] at hchars
    intro hhead
    have hmem : byteOrderMark ∈ value.toList := List.mem_of_head? hhead
    cases List.all_eq_true.mp hchars.2 _ hmem

theorem fileRequest_with {runtime : Runtime} {field value : String} {request : RuntimeRequest}
    (hpackage : isPackageField field = false) (hself : versionFileRequest value = value)
    (hne : value ≠ "") (hlts : ¬ (runtime = .node ∧ value = "lts/*"))
    (hrange : rangeRequest runtime field value = .ok request) :
    ∀ {names : List String}, field ∈ names →
      fileRequest runtime (filesWith field value) names = .ok (some request)
  | [], h => absurd h List.not_mem_nil
  | name :: rest, h => by
    rw [fileRequest, filesWith]
    by_cases hname : name = field
    · rw [if_pos ⟨hname, hpackage⟩]
      dsimp only
      rw [Option.map_some, Option.getD_some, hself, if_neg hne, if_neg hlts, hname, hrange]
      rfl
    · rw [if_neg fun hboth => hname hboth.1]
      dsimp only
      rw [Option.map_none, Option.getD_none, if_pos rfl]
      refine fileRequest_with hpackage hself hne hlts hrange ?_
      exact (List.mem_cons.mp h).resolve_left (Ne.symm hname)

/-- **A request that asks for a range is made again from its field and its value.** -/
theorem runtimeRequest_origin (h : Origin runtime request) (hversions : request.versions ≠ none) :
    runtimeRequest runtime (packageWith runtime request.field request.value)
      (filesWith request.field request.value) = .ok (some request) := by
  cases h with
  | manager hruntime hfield wanted hvalue version hversion hrequest =>
    subst hruntime
    have hmanager : bunManager .bun (packageWith .bun request.field request.value) =
        some request.value := by
      have hpackage : packageWith .bun request.field request.value =
          { packageManager := some request.value } := if_pos (by rw [hfield, beq_self_eq_true])
      rw [hpackage]
      unfold bunManager
      refine Option.filter_eq_some_iff.mpr ⟨rfl, ?_⟩
      rw [hvalue, List.isPrefixOf_iff_prefix]
      exact List.prefix_append _ _
    rw [runtimeRequest, hmanager]
    dsimp only
    rw [hrequest]
    rfl
  | engines hfield hrequest =>
    have hpackage : packageWith runtime request.field request.value =
        { engines := fun other => if other = runtime then some (some request.value)
            else none } := by
      rw [hfield]
      cases runtime <;> rfl
    have hmanager :
        bunManager runtime (packageWith runtime request.field request.value) = none := by
      rw [hpackage]
      cases runtime <;> rfl
    rw [runtimeRequest, hmanager, hpackage]
    dsimp only
    rw [if_pos rfl]
    dsimp only
    rw [hrequest]
    rfl
  | file hfield hne hlts line hline hvalue hrequest =>
    obtain ⟨-, versions, hrange, -⟩ := of_rangeRequest hrequest
    have hself := versionFileRequest_eq_self hne hline hvalue (head?_of_parseRange hrange)
    have hmanager : bunManager runtime {} = none := by
      cases runtime <;> rfl
    rw [packageWith_of_mem _ hfield, runtimeRequest, hmanager]
    exact fileRequest_with (isPackageField_of_mem hfield) hself hne hlts hrequest hfield
  | lts hruntime hfield hrequest =>
    rw [hrequest] at hversions
    exact absurd rfl hversions

end RuntimeVersions
end OpenstackPlatform
