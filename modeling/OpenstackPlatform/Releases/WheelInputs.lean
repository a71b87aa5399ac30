import OpenstackPlatform.Library.FileTree
import OpenstackPlatform.Library.JsonText
import OpenstackPlatform.Library.Lines

/-!
# The identity of the operator wheel

The installer and the release manifest each hash the inputs of the operator wheel: the project file,
the contract and the files of the package with certain suffixes.  `install_release.py` collects and
sorts them in `_candidate_wheel_inputs_sha256`, `release_manifest.py` in `_files` and `_tree_hash`.
The model gives the bytes that are hashed, and `none` where reading or encoding raises.  Trees have
no symbolic links, so the installer's refusal of links is left out.  `component_set` looks at other
inputs before this hash; the model of it starts at the hash.

* `Path`, `asPosix`, `relativeTo`, `suffix`: the part of `pathlib` that both use.
* `SourceTree`, `Scan`: a source tree, and the order in which one `rglob` lists it.
* `candidateWheelInputs`, `files`, `treeHash`, `operatorWheel`: the two implementations.
* `wheelRecords`: the records of a tree, sorted, which both of them concatenate.
* `wheelInputs_shared`: the bytes agree, and tell the paths and contents.
-/

namespace OpenstackPlatform

open Library

namespace WheelInputs

/-! ## Paths -/

/-- The name of a file in a directory. -/
def IsName (text : Text) : Prop := text ≠ [] ∧ 47 ∉ text ∧ 0 ∉ text

instance : DecidablePred IsName := fun _ => inferInstanceAs (Decidable (_ ∧ _ ∧ _))

abbrev Name := {text : Text // IsName text}

/-- A `Path`: what stands before its first name, and its names. -/
structure Path where
  anchor : Text
  parts : List Name
  deriving DecidableEq

/-- Names with slashes between them. -/
def joinNames (parts : List Name) : Text := List.intercalate [47] (parts.map (·.val))

/-- `as_posix` -/
def asPosix (path : Path) : Text :=
  if path.anchor = [] ∧ path.parts = [] then Text.ofString "."
  else path.anchor ++ joinNames path.parts

/-- `path / relative` -/
def joinpath (path : Path) (relative : List Name) : Path :=
  { path with parts := path.parts ++ relative }

/-- `relative_to`, which raises for a path that is not below the other. -/
def relativeTo (path other : Path) : Option Path :=
  if path.anchor = other.anchor ∧ other.parts <+: path.parts then
    some ⟨[], path.parts.drop other.parts.length⟩
  else none

/-- The suffix of a name: from its last dot, when something else than dots stands before it. -/
def nameSuffix (name : Text) : Text :=
  let before := name.reverse.dropWhile (· ≠ 46)
  if before.any (· ≠ 46) then 46 :: (name.reverse.takeWhile (· ≠ 46)).reverse else []

/-- `path.suffix` -/
def suffix (path : Path) : Text := (path.parts.getLast?.map fun name => nameSuffix name.val).getD []

/-! ## Source trees -/

/-- A source tree without symbolic links. -/
structure SourceTree where
  listing : Listing Name (List Nat)
  distinct : listing.Distinct

/-- `is_file`, of a path below the root of the tree. -/
def isFile (tree : SourceTree) (root path : Path) : Bool :=
  match relativeTo path root with
  | none => false
  | some relative =>
    match tree.listing.find? relative.parts with
    | some (.file _) => true
    | _ => false

/-- `read_bytes`, which raises unless the path names a file. -/
def readBytes (tree : SourceTree) (root path : Path) : Option (List Nat) :=
  match relativeTo path root with
  | none => none
  | some relative =>
    match tree.listing.find? relative.parts with
    | some (.file data) => some data
    | _ => none

/-- What `rglob("*")` gives below a directory; nothing when there is no such directory. -/
def below (tree : SourceTree) (directory : List Name) : List (List Name) :=
  match tree.listing.under? directory with
  | none => []
  | some listing => listing.paths

/-- One run of `rglob("*")`: it gives what is below the directory, in an order that the file system
chooses. -/
structure Scan (tree : SourceTree) (directory : List Name) where
  order : List (List Name)
  perm : order.Perm (below tree directory)

/-! ## The inputs -/

/-- `OPERATOR_WHEEL_SUFFIXES` of the manifest and `_OPERATOR_WHEEL_SUFFIXES` of the installer. -/
def operatorWheelSuffixes : List Text :=
  [".py", ".txt", ".html", ".css", ".js", ".cjs", ".svg"].map Text.ofString

def pyproject : Name := ⟨Text.ofString "pyproject.toml", by decide⟩
def openstackPlatform : Name := ⟨Text.ofString "openstack_platform", by decide⟩

/-- `infra/lib/platform_contract.json` -/
def contract : List Name :=
  [⟨Text.ofString "infra", by decide⟩, ⟨Text.ofString "lib", by decide⟩,
    ⟨Text.ofString "platform_contract.json", by decide⟩]

/-- `"operator-wheel-inputs-v1"` -/
def domain : Text := Text.ofString "operator-wheel-inputs-v1"

/-- Sorting by a key, as `sorted` does. -/
def sortedBy (key : Path → Text) (paths : List Path) : List Path :=
  paths.mergeSort fun a b => decide (key a ≤ key b)

/-- What both implementations feed to the digest for one path. -/
def record (tree : SourceTree) (root path : Path) : Option (List Nat) := do
  let relative ← relativeTo path root
  let data ← readBytes tree root path
  let name ← Text.encode? (asPosix relative)
  let size ← Text.encode? (JsonText.digits data.length)
  pure (name ++ [0] ++ size ++ [0] ++ data)

/-- The bytes that `_candidate_wheel_inputs_sha256` hashes.  The key of `sorted` raises for a path
that is not below the source. -/
def candidateWheelInputs (tree : SourceTree) (source : Path)
    (scan : Scan tree [openstackPlatform]) : Option (List Nat) := do
  let package := scan.order.map fun path => joinpath source (openstackPlatform :: path)
  let paths := [joinpath source [pyproject], joinpath source contract] ++
    package.filter fun path =>
      isFile tree source path && operatorWheelSuffixes.contains (suffix path)
  let _keys ← paths.mapM fun path => relativeTo path source
  let sorted := sortedBy (fun path => ((relativeTo path source).map asPosix).getD []) paths
  let records ← sorted.mapM fun path => record tree source path
  pure (domain ++ [0] ++ records.flatten)

/-- `_files` -/
def files (tree : SourceTree) (root : Path) (directory : List Name) (scan : Scan tree directory)
    (suffixes : List Text) : List Path :=
  (scan.order.map fun path => joinpath root (directory ++ path)).filter fun path =>
    isFile tree root path && suffixes.contains (suffix path)

/-- The bytes that `_tree_hash` hashes. -/
def treeHash (tree : SourceTree) (root : Path) (paths : List Path) (domain : Text) :
    Option (List Nat) := do
  let start ← Text.encode? (domain ++ [0])
  let records ← (sortedBy asPosix paths).mapM fun path => record tree root path
  pure (start ++ records.flatten)

/-- The bytes that `component_set` hashes for `operatorWheel`. -/
def operatorWheel (tree : SourceTree) (repository : Path)
    (scan : Scan tree [openstackPlatform]) : Option (List Nat) :=
  let packageFiles := files tree repository [openstackPlatform] scan operatorWheelSuffixes
  let wheelInputs := [joinpath repository [pyproject], joinpath repository contract] ++ packageFiles
  treeHash tree repository wheelInputs domain

/-! ## One order -/

/-- Texts with the same start are in the order of what follows it. -/
theorem append_le_append_iff (start : Text) {a b : Text} : start ++ a ≤ start ++ b ↔ a ≤ b := by
  have hmono : StrictMono fun text : Text => start ++ text :=
    fun _ _ h => List.Lex.append_left _ h start
  exact hmono.le_iff_le

theorem joinNames_append (parts : List Name) {n : Name} {rest : List Name} (h : parts ≠ []) :
    joinNames (parts ++ n :: rest) = joinNames parts ++ [47] ++ joinNames (n :: rest) := by
  induction parts with
  | nil => exact absurd rfl h
  | cons p parts ih =>
    rcases parts with _ | ⟨q, parts⟩
    · simp only [joinNames, List.cons_append, List.nil_append, List.map_cons, List.map_nil,
        intercalate_cons_cons, intercalate_singleton, List.append_assoc]
    · have ih := ih (List.cons_ne_nil _ _)
      simp only [joinNames, List.cons_append, List.map_cons, intercalate_cons_cons] at ih ⊢
      rw [ih]
      simp only [List.append_assoc, List.cons_append]

/-- Relative paths are told by their text. -/
theorem joinNames_inj {p q : List Name} (hp : p ≠ []) (hq : q ≠ [])
    (h : joinNames p = joinNames q) : p = q := by
  have hnames : ∀ l : List Name, ∀ text ∈ l.map (·.val), 47 ∉ text := by
    intro l text htext
    obtain ⟨name, _, rfl⟩ := List.mem_map.mp htext
    exact name.property.2.1
  have hsplit := congrArg (List.splitOn 47) h
  rw [joinNames, joinNames,
    List.splitOn_intercalate 47 (hnames p) fun h => hp (List.map_eq_nil_iff.mp h),
    List.splitOn_intercalate 47 (hnames q) fun h => hq (List.map_eq_nil_iff.mp h)] at hsplit
  exact List.map_injective_iff.mpr Subtype.val_injective hsplit

theorem zero_notMem_joinNames (p : List Name) : 0 ∉ joinNames p := by
  intro h
  rcases mem_intercalate h with h | ⟨text, htext, h⟩
  · omega
  · obtain ⟨name, _, rfl⟩ := List.mem_map.mp htext
    exact name.property.2.2 h

/-! ## Paths below a root -/

/-- What stands before the names of a path below the root. -/
def base (root : Path) : Text :=
  root.anchor ++ if root.parts = [] then [] else joinNames root.parts ++ [47]

theorem asPosix_joinpath (root : Path) {relative : List Name} (h : relative ≠ []) :
    asPosix (joinpath root relative) = base root ++ joinNames relative := by
  obtain ⟨n, rest, rfl⟩ := List.exists_cons_of_ne_nil h
  rw [asPosix, if_neg (by simp [joinpath]), base, joinpath]
  by_cases hroot : root.parts = []
  · simp [hroot]
  · rw [if_neg hroot, joinNames_append _ hroot]
    simp only [List.append_assoc]

theorem asPosix_relative {relative : List Name} (h : relative ≠ []) :
    asPosix ⟨[], relative⟩ = joinNames relative := by
  rw [asPosix, if_neg (fun hempty => h hempty.2), List.nil_append]

@[simp] theorem relativeTo_joinpath (root : Path) (relative : List Name) :
    relativeTo (joinpath root relative) root = some ⟨[], relative⟩ := by
  rw [relativeTo, joinpath, if_pos ⟨rfl, List.prefix_append ..⟩, List.drop_left]

/-- A file of the tree that has the suffix of an input. -/
def isInput (tree : SourceTree) (path : List Name) : Bool :=
  isFile tree ⟨[], []⟩ ⟨[], path⟩ && operatorWheelSuffixes.contains (suffix ⟨[], path⟩)

theorem isFile_joinpath (tree : SourceTree) (root : Path) (path : List Name) :
    isFile tree root (joinpath root path) = isFile tree ⟨[], []⟩ ⟨[], path⟩ := by
  have h : relativeTo ⟨[], path⟩ ⟨[], []⟩ = some ⟨[], path⟩ := relativeTo_joinpath ⟨[], []⟩ path
  rw [isFile, isFile, relativeTo_joinpath, h]

variable {path : List Name}

theorem suffix_joinpath (root : Path) (h : path ≠ []) :
    suffix (joinpath root path) = suffix ⟨[], path⟩ := by
  rw [suffix, suffix, joinpath, List.getLast?_append_of_ne_nil _ h]

/-! ## The records of a tree -/

/-- What the digest is fed for a file of the tree. -/
def relativeRecord (tree : SourceTree) (path : List Name) : Option (List Nat) :=
  record tree ⟨[], []⟩ ⟨[], path⟩

theorem record_joinpath (tree : SourceTree) (root : Path) (path : List Name) :
    record tree root (joinpath root path) = relativeRecord tree path := by
  have h : relativeTo ⟨[], path⟩ ⟨[], []⟩ = some ⟨[], path⟩ := relativeTo_joinpath ⟨[], []⟩ path
  rw [relativeRecord, record, record, readBytes, readBytes, relativeTo_joinpath, h]

theorem mapM_record_joinpath (tree : SourceTree) (root : Path) (paths : List (List Name)) :
    (paths.map (joinpath root)).mapM (fun path => record tree root path) =
      paths.mapM (relativeRecord tree) := by
  rw [List.mapM_map]
  congr 1
  funext path
  exact record_joinpath tree root path

/-- The inputs, relative to the root. -/
def wheelPaths (tree : SourceTree) (order : List (List Name)) : List (List Name) :=
  [[pyproject], contract] ++ (order.map (openstackPlatform :: ·)).filter (isInput tree)

/-- The order of the texts of two relative paths. -/
def inTextOrder (a b : List Name) : Bool := decide (joinNames a ≤ joinNames b)

/-- The records of the inputs, in the order of the texts of their paths. -/
def wheelRecords (tree : SourceTree) (order : List (List Name)) : Option (List (List Nat)) :=
  ((wheelPaths tree order).mergeSort inTextOrder).mapM (relativeRecord tree)

variable {tree : SourceTree}

theorem ne_nil_of_mem_wheelPaths {order : List (List Name)} (h : path ∈ wheelPaths tree order) :
    path ≠ [] := by
  rw [wheelPaths, List.mem_append] at h
  rcases h with h | h
  · rcases List.mem_cons.mp h with rfl | h
    · exact List.cons_ne_nil _ _
    · rw [List.mem_singleton.mp h]
      exact List.cons_ne_nil _ _
  · obtain ⟨_, _, rfl⟩ := List.mem_map.mp (List.mem_of_mem_filter h)
    exact List.cons_ne_nil _ _

/-- Both implementations start from the inputs, each below its own root. -/
theorem paths_eq (tree : SourceTree) (root : Path) (order : List (List Name)) :
    [joinpath root [pyproject], joinpath root contract] ++
      (order.map fun path => joinpath root (openstackPlatform :: path)).filter
        (fun path => isFile tree root path && operatorWheelSuffixes.contains (suffix path)) =
      (wheelPaths tree order).map (joinpath root) := by
  rw [wheelPaths, List.map_append, List.filter_map, List.filter_map, List.map_map]
  have hfilter : (order.filter ((fun path =>
        isFile tree root path && operatorWheelSuffixes.contains (suffix path)) ∘
          fun path => joinpath root (openstackPlatform :: path))) =
      order.filter (isInput tree ∘ (openstackPlatform :: ·)) := by
    refine List.filter_congr fun path _ => ?_
    rw [Function.comp_apply, Function.comp_apply, isInput, isFile_joinpath,
      suffix_joinpath root (List.cons_ne_nil _ _)]
  rw [hfilter]
  rfl

/-- Sorting below a root, by a text in the order of the relative ones, is sorting the relative
paths. -/
theorem sortedBy_joinpath {root : Path} {key : Path → Text} {paths : List (List Name)}
    (h : ∀ a ∈ paths, ∀ b ∈ paths,
      key (joinpath root a) ≤ key (joinpath root b) ↔ joinNames a ≤ joinNames b) :
    sortedBy key (paths.map (joinpath root)) =
      (paths.mergeSort inTextOrder).map (joinpath root) := by
  rw [sortedBy]
  refine (List.map_mergeSort fun a ha b hb => ?_).symm
  exact decide_eq_decide.mpr (h a ha b hb).symm

theorem candidateWheelInputs_eq (tree : SourceTree) (source : Path)
    (scan : Scan tree [openstackPlatform]) :
    candidateWheelInputs tree source scan =
      (wheelRecords tree scan.order).map fun records => domain ++ [0] ++ records.flatten := by
  have hkeys : ((wheelPaths tree scan.order).map (joinpath source)).mapM
      (fun path => relativeTo path source) =
        some ((wheelPaths tree scan.order).map fun path => ⟨[], path⟩) := by
    rw [List.mapM_map]
    induction wheelPaths tree scan.order with
    | nil => rfl
    | cons path paths ih =>
      rw [List.mapM_cons, ih, Function.comp_apply, relativeTo_joinpath]
      rfl
  have hsorted : sortedBy (fun path => ((relativeTo path source).map asPosix).getD [])
      ((wheelPaths tree scan.order).map (joinpath source)) =
        ((wheelPaths tree scan.order).mergeSort inTextOrder).map (joinpath source) := by
    refine sortedBy_joinpath fun a ha b hb => ?_
    rw [relativeTo_joinpath, relativeTo_joinpath, Option.map_some, Option.map_some,
      Option.getD_some, Option.getD_some, asPosix_relative (ne_nil_of_mem_wheelPaths ha),
      asPosix_relative (ne_nil_of_mem_wheelPaths hb)]
  rw [candidateWheelInputs]
  simp only [paths_eq, hkeys, hsorted, mapM_record_joinpath, Option.bind_eq_bind,
    Option.bind_some, wheelRecords]
  rw [Option.map_eq_bind]
  rfl

theorem operatorWheel_eq (tree : SourceTree) (repository : Path)
    (scan : Scan tree [openstackPlatform]) :
    operatorWheel tree repository scan =
      (wheelRecords tree scan.order).map fun records => domain ++ [0] ++ records.flatten := by
  have hdomain : Text.encode? (domain ++ [0]) = some (domain ++ [0]) :=
    Text.encode?_ascii (by rw [Text.IsAscii]; decide)
  have hsorted : sortedBy asPosix ((wheelPaths tree scan.order).map (joinpath repository)) =
      ((wheelPaths tree scan.order).mergeSort inTextOrder).map (joinpath repository) := by
    refine sortedBy_joinpath fun a ha b hb => ?_
    rw [asPosix_joinpath _ (ne_nil_of_mem_wheelPaths ha),
      asPosix_joinpath _ (ne_nil_of_mem_wheelPaths hb)]
    exact append_le_append_iff _
  rw [operatorWheel, treeHash]
  simp only [files, List.singleton_append, paths_eq, hdomain, hsorted, mapM_record_joinpath,
    Option.bind_eq_bind, Option.bind_some, wheelRecords]
  rw [Option.map_eq_bind]
  rfl

theorem pairwise_inTextOrder (paths : List (List Name)) :
    (paths.mergeSort inTextOrder).Pairwise fun a b => inTextOrder a b = true := by
  refine List.pairwise_mergeSort (fun a b c hab hbc => ?_) (fun a b => ?_) paths
  · exact decide_eq_true (le_trans (of_decide_eq_true hab) (of_decide_eq_true hbc))
  · rw [Bool.or_eq_true, inTextOrder, inTextOrder, decide_eq_true_eq, decide_eq_true_eq]
    exact le_total _ _

/-- Nonempty paths have one order by their texts. -/
theorem mergeSort_eq_of_perm {paths sorted : List (List Name)} (hne : ∀ path ∈ paths, path ≠ [])
    (hperm : paths.Perm sorted) (hsorted : sorted.Pairwise fun a b => inTextOrder a b = true) :
    paths.mergeSort inTextOrder = sorted := by
  refine List.Perm.eq_of_pairwise (fun a b ha hb hab hba => ?_) (pairwise_inTextOrder paths) hsorted
    ((List.mergeSort_perm _ _).trans hperm)
  exact joinNames_inj (hne a (List.mem_mergeSort.mp ha)) (hne b (hperm.mem_iff.mpr hb))
    (le_antisymm (of_decide_eq_true hab) (of_decide_eq_true hba))

/-- The order in which the file system lists the package is immaterial. -/
theorem wheelRecords_scan (tree : SourceTree) (scan scan' : Scan tree [openstackPlatform]) :
    wheelRecords tree scan.order = wheelRecords tree scan'.order := by
  have hperm : (wheelPaths tree scan.order).Perm (wheelPaths tree scan'.order) :=
    (((scan.perm.trans scan'.perm.symm).map _).filter _).append_left _
  rw [wheelRecords, wheelRecords, mergeSort_eq_of_perm (fun _ => ne_nil_of_mem_wheelPaths)
    (hperm.trans (List.mergeSort_perm _ _).symm) (pairwise_inTextOrder _)]

/-! ## Reading the bytes back -/

theorem zero_notMem_encode {text : Text} {raw : List Nat} (h : Text.encode? text = some raw)
    (hzero : 0 ∉ text) : 0 ∉ raw := by
  rw [Text.encode?] at h
  split at h
  · cases h
    intro hmem
    obtain ⟨c, hc, h0⟩ := List.mem_flatMap.mp hmem
    have hne : c ≠ 0 := fun h => hzero (h ▸ hc)
    simp only [Text.encodePoint] at h0
    split at h0 <;> [skip; split at h0 <;> [skip; split at h0]] <;>
      · simp only [List.mem_cons, List.not_mem_nil, or_false] at h0
        omega
  · cases h

theorem encode_digits (n : Nat) : Text.encode? (JsonText.digits n) = some (JsonText.digits n) := by
  refine Text.encode?_ascii fun c hc => ?_
  have := JsonText.isDigit_of_mem_digits hc
  simp only [JsonText.isDigit, Bool.and_eq_true, decide_eq_true_eq] at this
  omega

theorem zero_notMem_digits (n : Nat) : 0 ∉ JsonText.digits n :=
  fun h => absurd (JsonText.isDigit_of_mem_digits h) (by decide)

/-- What stands in the record of a path. -/
theorem relativeRecord_eq_some_iff (hpath : path ≠ []) {bytes : List Nat} :
    relativeRecord tree path = some bytes ↔
      ∃ data name, tree.listing.find? path = some (.file data) ∧
        Text.encode? (joinNames path) = some name ∧
          bytes = name ++ 0 :: (JsonText.digits data.length ++ 0 :: data) := by
  have hrelative : relativeTo ⟨[], path⟩ ⟨[], []⟩ = some ⟨[], path⟩ :=
    relativeTo_joinpath ⟨[], []⟩ path
  rw [relativeRecord, record, hrelative]
  simp only [Option.bind_eq_bind, Option.bind_some, Option.bind_eq_some_iff, readBytes, hrelative,
    asPosix_relative hpath, encode_digits]
  constructor
  · rintro ⟨data, hdata, name, hname, hbytes⟩
    split at hdata
    · rename_i found hfound
      obtain rfl := Option.some.inj hdata
      refine ⟨found, name, hfound, hname, ?_⟩
      rw [← Option.some.inj hbytes]
      simp only [List.append_assoc, List.cons_append, List.nil_append]
    · cases hdata
  · rintro ⟨data, name, hfound, hname, rfl⟩
    refine ⟨data, by rw [hfound], name, hname, ?_⟩
    simp only [List.append_assoc, List.cons_append, List.nil_append]
    rfl

/-- Records say where they end: the bytes of a sequence of records tell the paths and what the
files hold. -/
theorem mapM_relativeRecord_inj {tree tree' : SourceTree} :
    ∀ {paths paths' : List (List Name)} {records records' : List (List Nat)},
      (∀ path ∈ paths, path ≠ []) → (∀ path ∈ paths', path ≠ []) →
      paths.mapM (relativeRecord tree) = some records →
      paths'.mapM (relativeRecord tree') = some records' → records.flatten = records'.flatten →
      paths = paths' ∧ ∀ path ∈ paths, tree.listing.find? path = tree'.listing.find? path
  | [], [], _, _, _, _, _, _, _ => ⟨rfl, by simp⟩
  | [], path' :: paths', records, records', _, hne', h, h', hflat => by
    obtain ⟨bytes, hbytes, h'⟩ := Option.bind_eq_some_iff.mp ((List.mapM_cons ..).symm.trans h')
    obtain ⟨rest, _, h'⟩ := Option.bind_eq_some_iff.mp h'
    cases h
    cases h'
    obtain ⟨data, name, _, _, rfl⟩ :=
      (relativeRecord_eq_some_iff (hne' _ List.mem_cons_self)).mp hbytes
    simp at hflat
  | path :: paths, [], records, records', hne, _, h, h', hflat => by
    obtain ⟨bytes, hbytes, h⟩ := Option.bind_eq_some_iff.mp ((List.mapM_cons ..).symm.trans h)
    obtain ⟨rest, _, h⟩ := Option.bind_eq_some_iff.mp h
    cases h
    cases h'
    obtain ⟨data, name, _, _, rfl⟩ :=
      (relativeRecord_eq_some_iff (hne _ List.mem_cons_self)).mp hbytes
    simp at hflat
  | path :: paths, path' :: paths', records, records', hne, hne', h, h', hflat => by
    obtain ⟨bytes, hbytes, h⟩ := Option.bind_eq_some_iff.mp ((List.mapM_cons ..).symm.trans h)
    obtain ⟨rest, hrest, h⟩ := Option.bind_eq_some_iff.mp h
    obtain ⟨bytes', hbytes', h'⟩ := Option.bind_eq_some_iff.mp ((List.mapM_cons ..).symm.trans h')
    obtain ⟨rest', hrest', h'⟩ := Option.bind_eq_some_iff.mp h'
    cases h
    cases h'
    obtain ⟨data, name, hdata, hname, rfl⟩ :=
      (relativeRecord_eq_some_iff (hne _ List.mem_cons_self)).mp hbytes
    obtain ⟨data', name', hdata', hname', rfl⟩ :=
      (relativeRecord_eq_some_iff (hne' _ List.mem_cons_self)).mp hbytes'
    simp only [List.flatten_cons, List.append_assoc, List.cons_append] at hflat
    -- the name and the size end at a zero byte, the content by its size
    obtain ⟨hnames, hflat⟩ := append_cons_inj
      (zero_notMem_encode hname (zero_notMem_joinNames path))
      (zero_notMem_encode hname' (zero_notMem_joinNames path')) hflat
    obtain ⟨hsizes, hflat⟩ := append_cons_inj (zero_notMem_digits _) (zero_notMem_digits _) hflat
    have hlength : data.length = data'.length := by
      have := congrArg JsonText.decimal hsizes
      rwa [JsonText.decimal_digits, JsonText.decimal_digits] at this
    obtain ⟨rfl, htail⟩ := List.append_inj hflat hlength
    have htext : joinNames path = joinNames path' := by
      have hread := Text.decodeStrict?_of_encode? hname
      rw [hnames, Text.decodeStrict?_of_encode? hname'] at hread
      exact (Option.some.inj hread).symm
    obtain rfl := joinNames_inj (hne _ List.mem_cons_self) (hne' _ List.mem_cons_self) htext
    obtain ⟨rfl, hfind⟩ := mapM_relativeRecord_inj (fun p hp => hne p (List.mem_cons_of_mem _ hp))
      (fun p hp => hne' p (List.mem_cons_of_mem _ hp)) hrest hrest' htail
    refine ⟨rfl, fun p hp => ?_⟩
    rcases List.mem_cons.mp hp with rfl | hp
    · rw [hdata, hdata']
    · exact hfind p hp

/-! ## The inputs of a tree -/

/-- A file of the tree that goes into the wheel's identity, with its content. -/
def IsWheelInput (tree : SourceTree) (path : List Name) (content : List Nat) : Prop :=
  tree.listing.find? path = some (.file content) ∧
    (path = [pyproject] ∨ path = contract ∨
      ∃ n rest, path = openstackPlatform :: n :: rest ∧
        nameSuffix ((n :: rest).getLast (List.cons_ne_nil n rest)).val ∈ operatorWheelSuffixes)

/-- What `rglob` gives is what the paths below the directory name. -/
theorem mem_scan {directory : List Name} (scan : Scan tree directory) :
    path ∈ scan.order ↔ path ≠ [] ∧ tree.listing.find? (directory ++ path) ≠ none := by
  rw [scan.perm.mem_iff, below]
  rcases path with _ | ⟨n, rest⟩
  · split
    · simp
    · rename_i listing hunder
      rw [Listing.mem_paths (tree.distinct.of_under? hunder)]
      simp
  · rw [Listing.find?_append]
    split
    · rename_i hunder
      simp [hunder]
    · rename_i listing hunder
      rw [Listing.mem_paths (tree.distinct.of_under? hunder), hunder, Option.bind_some]

theorem isInput_iff {n : Name} {rest : List Name} {content : List Nat}
    (h : tree.listing.find? (openstackPlatform :: n :: rest) = some (.file content)) :
    isInput tree (openstackPlatform :: n :: rest) = true ↔
      nameSuffix ((n :: rest).getLast (List.cons_ne_nil n rest)).val ∈ operatorWheelSuffixes := by
  have hrelative : relativeTo ⟨[], openstackPlatform :: n :: rest⟩ ⟨[], []⟩ =
      some ⟨[], openstackPlatform :: n :: rest⟩ := relativeTo_joinpath ⟨[], []⟩ _
  have hfile : isFile tree ⟨[], []⟩ ⟨[], openstackPlatform :: n :: rest⟩ = true := by
    simp only [isFile, hrelative, h]
  have hlast : (openstackPlatform :: n :: rest).getLast? =
      some ((n :: rest).getLast (List.cons_ne_nil n rest)) := by
    rw [List.getLast?_cons_cons, List.getLast?_eq_some_getLast]
  rw [isInput, hfile, Bool.true_and, List.contains_iff_mem, suffix, hlast, Option.map_some,
    Option.getD_some]

theorem isWheelInput_iff (scan : Scan tree [openstackPlatform]) {content : List Nat} :
    IsWheelInput tree path content ↔
      path ∈ wheelPaths tree scan.order ∧ tree.listing.find? path = some (.file content) := by
  rw [IsWheelInput, and_comm, and_congr_left_iff]
  intro hfile
  rw [wheelPaths, List.mem_append, List.mem_cons, List.mem_singleton, or_assoc, List.mem_filter,
    List.mem_map]
  refine or_congr_right (or_congr_right ⟨?_, ?_⟩)
  · rintro ⟨n, rest, rfl, hsuffix⟩
    have hscan : n :: rest ∈ scan.order := (mem_scan scan).mpr
      ⟨List.cons_ne_nil _ _, by rw [List.singleton_append, hfile]; simp⟩
    exact ⟨⟨n :: rest, hscan, rfl⟩, (isInput_iff hfile).mpr hsuffix⟩
  · rintro ⟨⟨below, hbelow, rfl⟩, hinput⟩
    obtain ⟨n, rest, rfl⟩ := List.exists_cons_of_ne_nil ((mem_scan scan).mp hbelow).1
    exact ⟨n, rest, rfl, (isInput_iff hfile).mp hinput⟩

/-! ## Both identities -/

/-- The installer and the manifest hash the same bytes, and the bytes tell the inputs: neither the
order in which a directory is listed nor the root that it is found under makes a difference. -/
theorem wheelInputs_shared :
    (∀ (tree : SourceTree) (source repository : Path) (scan scan' : Scan tree [openstackPlatform]),
      candidateWheelInputs tree source scan = operatorWheel tree repository scan') ∧
    ∀ (tree tree' : SourceTree) (source source' : Path) (scan : Scan tree [openstackPlatform])
      (scan' : Scan tree' [openstackPlatform]) (bytes : List Nat),
      candidateWheelInputs tree source scan = some bytes →
      candidateWheelInputs tree' source' scan' = some bytes →
        ∀ path content, IsWheelInput tree path content ↔ IsWheelInput tree' path content := by
  constructor
  · intro tree source repository scan scan'
    rw [candidateWheelInputs_eq, operatorWheel_eq, wheelRecords_scan tree scan scan']
  · intro tree tree' source source' scan scan' bytes h h' path content
    rw [candidateWheelInputs_eq] at h h'
    obtain ⟨records, hrecords, rfl⟩ := Option.map_eq_some_iff.mp h
    obtain ⟨records', hrecords', hbytes⟩ := Option.map_eq_some_iff.mp h'
    have hne {tree : SourceTree} (order : List (List Name)) :
        ∀ path ∈ (wheelPaths tree order).mergeSort inTextOrder, path ≠ [] :=
      fun path hpath => ne_nil_of_mem_wheelPaths (List.mem_mergeSort.mp hpath)
    obtain ⟨hpaths, hfind⟩ := mapM_relativeRecord_inj (hne scan.order) (hne scan'.order) hrecords
      hrecords' (List.append_cancel_left hbytes).symm
    have hmem : path ∈ wheelPaths tree scan.order ↔ path ∈ wheelPaths tree' scan'.order := by
      rw [← List.mem_mergeSort, hpaths, List.mem_mergeSort]
    rw [isWheelInput_iff scan, isWheelInput_iff scan', ← hmem]
    refine and_congr_right fun hpath => ?_
    rw [hfind path (List.mem_mergeSort.mpr hpath)]

def sampleModule : Name := ⟨Text.ofString "a.py", by decide⟩

/-- A tree with one module of the package, with a note there or without; the note is no input. -/
def sampleTree (hasNote : Bool) : SourceTree where
  listing :=
    .file pyproject [1]
      (.directory openstackPlatform
        (.file sampleModule [2]
          (if hasNote then .file ⟨Text.ofString "note.md", by decide⟩ [4] .nil else .nil))
        (.directory ⟨Text.ofString "infra", by decide⟩
          (.directory ⟨Text.ofString "lib", by decide⟩
            (.file ⟨Text.ofString "platform_contract.json", by decide⟩ [3] .nil) .nil) .nil))
  distinct := by
    cases hasNote <;>
    · simp only [Listing.Distinct, Listing.names, if_true, Bool.false_eq_true, if_false]
      decide

def sampleScan (hasNote : Bool) : Scan (sampleTree hasNote) [openstackPlatform] :=
  ⟨below (sampleTree hasNote) [openstackPlatform], List.Perm.refl _⟩

/-- The records of the tree: the contract, the module and the project file. -/
def sampleRecords : List (List Nat) :=
  [Text.ofString "infra/lib/platform_contract.json" ++ [0, 49, 0, 3],
    Text.ofString "openstack_platform/a.py" ++ [0, 49, 0, 2],
    Text.ofString "pyproject.toml" ++ [0, 49, 0, 1]]

theorem wheelRecords_sample (hasNote : Bool) :
    wheelRecords (sampleTree hasNote) (sampleScan hasNote).order = some sampleRecords := by
  have hpaths : wheelPaths (sampleTree hasNote) (sampleScan hasNote).order =
      [[pyproject], contract, [openstackPlatform, sampleModule]] := by
    cases hasNote <;> decide +kernel
  have hperm : [[pyproject], contract, [openstackPlatform, sampleModule]].Perm
      [contract, [openstackPlatform, sampleModule], [pyproject]] := by
    decide +kernel
  rw [wheelRecords, hpaths, mergeSort_eq_of_perm (by decide) hperm (by decide +kernel)]
  cases hasNote <;> decide +kernel

/-- A tree with the note and one without it have the same bytes, so the same module. -/
theorem wheelInputs_shared_note :
    IsWheelInput (sampleTree true) [openstackPlatform, sampleModule] [2] ↔
      IsWheelInput (sampleTree false) [openstackPlatform, sampleModule] [2] :=
  wheelInputs_shared.2 (sampleTree true) (sampleTree false) ⟨[], []⟩ ⟨[47], []⟩ (sampleScan true)
    (sampleScan false) (domain ++ [0] ++ sampleRecords.flatten)
    (by rw [candidateWheelInputs_eq, wheelRecords_sample, Option.map_some])
    (by rw [candidateWheelInputs_eq, wheelRecords_sample, Option.map_some]) _ _

end WheelInputs

end OpenstackPlatform
