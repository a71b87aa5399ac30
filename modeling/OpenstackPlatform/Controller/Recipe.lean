import OpenstackPlatform.Controller.ApplicationModels
import OpenstackPlatform.Controller.Journal
import OpenstackPlatform.Library.Dockerfile

/-!
# Build recipes

`generate_recipe` of `application_runtime.py`: the Dockerfile of a manifest, and the hash that
identifies the recipe.  The Dockerfile is put together from lines, some of which carry values that an
owner chose: the package paths, the scripts and, through the runtime image, the version.

`templateInstructions` says which instructions the Dockerfile is meant to have, each owner value an
argument of its own.  A package path may have a line end in it, and that is the only way in which
the Dockerfile is read as anything else.

* `RuntimeImages`, `LogWrapper`, `generateRecipe`.
* `templateInstructions`, `Faithful`.
* `faithful_iff`: the main result.
-/

namespace OpenstackPlatform
namespace Controller

open Library Library.JsonText Library.Dockerfile Validation

/-! ## The generator -/

/-- `RuntimeImages` -/
structure RuntimeImages where
  bun : String
  node : String
  deriving DecidableEq, Repr

/-- `log_timestamps.cjs`: its bytes in base64, and their hash. -/
structure LogWrapper where
  base64 : String
  sha256 : String
  deriving DecidableEq, Repr

/-- `_RECIPE_GENERATOR_VERSION` -/
def recipeGeneratorVersion : Int := 3

/-- `wrapper_path` -/
def wrapperPath : String := "/platform-log-timestamps.cjs"

/-- `script_name` -/
def checkScriptName (value : String) : Except Error Unit :=
  require (isScriptName value) (.validation "script name contains unsupported characters")

/-- `oci_digest_pin` -/
def checkOciDigestPin (field value : String) : Except Error Unit :=
  require (isOciDigestPin value) (.validation s!"{field} must be an image@sha256 digest pin")

/-- `json.dumps(command, separators=(",", ":"))` -/
def jsonCommand (command : List String) : Text := dump (.arr (command.map jsonString))

/-- What depends on the runtime: its image, the command that installs packages and the one that runs
a script. -/
structure RuntimeCommands where
  runtime : String
  image : String
  install : String
  runScript : List String

/-- The branches of `generate_recipe` over `manifest.runtime`. -/
def runtimeCommands (images : RuntimeImages) (runtime : String) : Except Error RuntimeCommands :=
  if runtime == "bun" then do
    checkOciDigestPin "runtimeImages.bun" images.bun
    return ⟨"bun", images.bun, "[\"bun\",\"install\",\"--frozen-lockfile\"]", ["bun", "run"]⟩
  else if runtime == "node" then do
    checkOciDigestPin "runtimeImages.node" images.node
    return ⟨"node", images.node, "[\"npm\",\"ci\"]", ["npm", "run"]⟩
  else .error (.validation "runtime must be bun or node")

/-- The directory of a package. -/
def packageDirectory (package : String) : String :=
  if package == "." then "/app" else "/app/" ++ package

/-- The program that writes the wrapper. -/
def injectProgram (wrapper : LogWrapper) : String :=
  "require('node:fs').writeFileSync('" ++ wrapperPath ++ "',Buffer.from('" ++ wrapper.base64 ++
    "', 'base64'),\x7bmode:0o444\x7d)"

/-- A keyword and the rest of its line. -/
def textLine (keyword : String) (rest : Text) : Text := Text.ofString (keyword ++ " ") ++ rest

/-- `lines` -/
def recipeLines (m : Manifest) (packages : List String) (r : RuntimeCommands)
    (wrapper : LogWrapper) : List Text :=
  [textLine "FROM" (Text.ofString r.image), textLine "WORKDIR" (Text.ofString "/app"),
    textLine "COPY" (Text.ofString "--chown=65532:65532 . /app")] ++
  (packages.flatMap fun package =>
    [textLine "WORKDIR" (Text.ofString (packageDirectory package)),
      textLine "RUN" (Text.ofString r.install)]) ++
  [textLine "WORKDIR" (Text.ofString "/app")] ++
  (m.buildScript.toList.map fun script => textLine "RUN" (jsonCommand (r.runScript ++ [script]))) ++
  [textLine "RUN" (jsonCommand [r.runtime, "-e", injectProgram wrapper]),
    textLine "ENV" (Text.ofString "NODE_ENV=production"),
    textLine "USER" (Text.ofString "65532:65532"),
    textLine "EXPOSE" (digits m.port),
    textLine "ENTRYPOINT" (jsonCommand [r.runtime, wrapperPath]),
    textLine "CMD" (jsonCommand (r.runScript ++ [m.startScript])),
    []]

/-- `identity` -/
def recipeIdentity (m : Manifest) (packages : List String) (r : RuntimeCommands)
    (wrapper : LogWrapper) (health : String) : Value :=
  .obj [(Text.ofString "generatorVersion", .int recipeGeneratorVersion),
    (Text.ofString "logWrapperSha256", jsonString wrapper.sha256),
    (Text.ofString "runtime", jsonString m.runtime),
    (Text.ofString "runtimeImage", jsonString r.image),
    (Text.ofString "packages", .arr (packages.map jsonString)),
    (Text.ofString "build", jsonOptional m.buildScript),
    (Text.ofString "start", jsonString m.startScript),
    (Text.ofString "port", .int m.port),
    (Text.ofString "healthPath", jsonString health)]

/-- `generate_recipe` -/
def generateRecipe (sha256 : Text → String) (wrapper : LogWrapper) (m : Manifest)
    (images : RuntimeImages) : Except Error Recipe := do
  checkScriptName m.startScript
  checkGiven checkScriptName m.buildScript
  require (1 ≤ m.port && m.port ≤ 65535)
    (.validation "application port must be an integer from 1 through 65535")
  let r ← runtimeCommands images m.runtime
  let packages ← m.packages.mapM fun value => validated (relativePath "package path" value)
  require (!packages.isEmpty && decide packages.Nodup)
    (.validation "application packages must be a non-empty unique list")
  let health ← validated (healthPath (Text.ofString m.healthPath))
  return ⟨List.intercalate [10] (recipeLines m packages r wrapper),
    sha256 (dumps (recipeIdentity m packages r wrapper health))⟩

/-! ## The template -/

/-- The image of a manifest's runtime. -/
def runtimeImage (images : RuntimeImages) (runtime : String) : String :=
  if runtime == "bun" then images.bun else images.node

/-- The command that installs the packages of a directory. -/
def installCommand (runtime : String) : List String :=
  if runtime == "bun" then ["bun", "install", "--frozen-lockfile"] else ["npm", "ci"]

/-- The command that runs a script of `package.json`. -/
def scriptCommand (runtime script : String) : List String :=
  if runtime == "bun" then ["bun", "run", script] else ["npm", "run", script]

/-- An instruction that takes words. -/
def wordsInstruction (keyword : String) (arguments : List String) : Instruction :=
  .words (Text.ofString keyword) (arguments.map Text.ofString)

/-- An instruction that takes a command. -/
def execInstruction (keyword : String) (command : List String) : Instruction :=
  .exec (Text.ofString keyword) (command.map Text.ofString)

/-- `WORKDIR` -/
def workdirInstruction (directory : String) : Instruction :=
  .line (Text.ofString "WORKDIR") (Text.ofString directory)

/-- The instructions a Dockerfile is meant to have, each owner value one argument. -/
def templateInstructions (m : Manifest) (images : RuntimeImages) (wrapper : LogWrapper) :
    List Instruction :=
  [wordsInstruction "FROM" [runtimeImage images m.runtime], workdirInstruction "/app",
    wordsInstruction "COPY" ["--chown=65532:65532", ".", "/app"]] ++
  (m.packages.flatMap fun package =>
    [workdirInstruction (packageDirectory package),
      execInstruction "RUN" (installCommand m.runtime)]) ++
  [workdirInstruction "/app"] ++
  (m.buildScript.toList.map fun script => execInstruction "RUN" (scriptCommand m.runtime script)) ++
  [execInstruction "RUN" [m.runtime, "-e", injectProgram wrapper],
    wordsInstruction "ENV" ["NODE_ENV=production"],
    wordsInstruction "USER" ["65532:65532"],
    .words (Text.ofString "EXPOSE") [digits m.port],
    execInstruction "ENTRYPOINT" [m.runtime, wrapperPath],
    execInstruction "CMD" (scriptCommand m.runtime m.startScript)]

/-- The Dockerfile is read as the instructions it is meant to have, and no others. -/
def Faithful (m : Manifest) (images : RuntimeImages) (wrapper : LogWrapper) (recipe : Recipe) :
    Prop :=
  Dockerfile.read recipe.dockerfile = some (templateInstructions m images wrapper)

instance (m : Manifest) (images : RuntimeImages) (wrapper : LogWrapper) (recipe : Recipe) :
    Decidable (Faithful m images wrapper recipe) :=
  inferInstanceAs (Decidable (Dockerfile.read _ = _))

/-! ## Lines of the template -/

theorem text_wordsInstruction (keyword argument : String) :
    (wordsInstruction keyword [argument]).text = textLine keyword (Text.ofString argument) := by
  simp [wordsInstruction, Instruction.text, textLine, Text.ofString, List.intercalate]

theorem text_workdirInstruction (directory : String) :
    (workdirInstruction directory).text = textLine "WORKDIR" (Text.ofString directory) := by
  simp [workdirInstruction, Instruction.text, textLine, Text.ofString]

theorem text_execInstruction (keyword : String) (command : List String) :
    (execInstruction keyword command).text = textLine keyword (jsonCommand command) := by
  have hvalues : command.map jsonString = (command.map Text.ofString).map Value.str := by
    rw [List.map_map]
    rfl
  rw [execInstruction, Instruction.text, jsonCommand, commandValue, hvalues, textLine]
  simp [Text.ofString]

theorem install_bun : Text.ofString "[\"bun\",\"install\",\"--frozen-lockfile\"]" =
    jsonCommand (installCommand "bun") := by
  decide

theorem install_node : Text.ofString "[\"npm\",\"ci\"]" = jsonCommand (installCommand "node") := by
  decide

variable {images : RuntimeImages}

/-- The image, the commands and the name of an accepted runtime. -/
theorem runtimeCommands_ok {runtime : String} {r : RuntimeCommands}
    (h : runtimeCommands images runtime = .ok r) :
    r.runtime = runtime ∧ r.image = runtimeImage images runtime ∧
      isOciDigestPin r.image = true ∧
      Text.ofString r.install = jsonCommand (installCommand runtime) ∧
      ∀ script, r.runScript ++ [script] = scriptCommand runtime script := by
  rw [runtimeCommands] at h
  by_cases hbun : (runtime == "bun") = true
  · rw [if_pos hbun] at h
    obtain rfl := beq_iff_eq.mp hbun
    obtain ⟨hpin, h⟩ := check_bind_eq_ok.mp h
    cases h
    exact ⟨rfl, rfl, require_eq_ok.mp hpin, install_bun, fun _ => rfl⟩
  · rw [if_neg hbun] at h
    by_cases hnode : (runtime == "node") = true
    · rw [if_pos hnode] at h
      obtain rfl := beq_iff_eq.mp hnode
      obtain ⟨hpin, h⟩ := check_bind_eq_ok.mp h
      cases h
      exact ⟨rfl, rfl, require_eq_ok.mp hpin, install_node, fun _ => rfl⟩
    · rw [if_neg hnode] at h
      cases h

variable {m : Manifest}

/-- The lines of the generator are those of the template, and an empty one. -/
theorem recipeLines_eq {wrapper : LogWrapper} {r : RuntimeCommands}
    (h : runtimeCommands images m.runtime = .ok r) : recipeLines m m.packages r wrapper =
      (templateInstructions m images wrapper).map Instruction.text ++ [[]] := by
  obtain ⟨hruntime, himage, -, hinstall, hscript⟩ := runtimeCommands_ok h
  have hcopy : (wordsInstruction "COPY" ["--chown=65532:65532", ".", "/app"]).text =
      textLine "COPY" (Text.ofString "--chown=65532:65532 . /app") := by
    decide
  have hexpose : (Instruction.words (Text.ofString "EXPOSE") [digits m.port]).text =
      textLine "EXPOSE" (digits m.port) := by
    simp [Instruction.text, textLine, Text.ofString, List.intercalate]
  simp only [recipeLines, templateInstructions, List.map_append, List.map_cons, List.map_nil,
    List.map_flatMap, List.map_map, Function.comp_def, text_wordsInstruction,
    text_workdirInstruction, text_execInstruction, hcopy, hexpose, hruntime, himage, hinstall,
    hscript, List.append_assoc, List.cons_append, List.nil_append]

/-! ## Which characters stand in a line -/

theorem isSpace_of_isHexLower {c : Char} (h : isHexLower c = true) : isSpace c = false := by
  simp only [isHexLower, Char.isDigit, Bool.or_eq_true, Bool.and_eq_true, decide_eq_true_eq,
    UInt32.le_iff_toNat_le, Char.le_def] at h
  simp only [isSpace, Char.toNat, Bool.or_eq_false_iff, Bool.and_eq_false_iff,
    decide_eq_false_iff_not, beq_eq_false_iff_ne]
  have h9 : ('9' : Char).val.toNat = 57 := rfl
  have ha : ('a' : Char).val.toNat = 97 := rfl
  have hf : ('f' : Char).val.toNat = 102 := rfl
  have h0 : ('0' : Char).val.toNat = 48 := rfl
  omega

/-- No character of a pin is a blank or a line end. -/
theorem isSpace_of_mem_pin {s : String} (h : isOciDigestPin s = true) {c : Char}
    (hc : c ∈ s.toList) : isSpace c = false := by
  rw [isOciDigestPin] at h
  split at h
  · rename_i name digest hsplit
    simp only [Bool.and_eq_true, List.all_eq_true, beq_iff_eq, isSha256Hex] at h
    obtain ⟨⟨⟨⟨-, -⟩, hname⟩, htake⟩, -, hhex⟩ := h
    have hs : s.toList = name ++ '@' :: digest := append_of_splitOn hsplit
    rw [hs, List.mem_append, List.mem_cons] at hc
    obtain hc | rfl | hc := hc
    · have hname' : List.intercalate ['/'] (name.splitOn '/') = name := List.intercalate_splitOn '/'
      rw [← hname'] at hc
      obtain rfl | ⟨p, hp, hc⟩ := mem_intercalate hc
      · decide
      · have hp := (hname p hp).2 c hc
        simpa using hp
    · decide
    · rw [← List.take_append_drop 7 digest, htake, List.mem_append] at hc
      obtain hc | hc := hc
      · have hall : ∀ d ∈ "sha256:".toList, isSpace d = false := by decide
        exact hall c hc
      · rw [String.toList_ofList] at hhex
        exact isSpace_of_isHexLower (hhex c hc)
  · cases h

/-- A character that is no blank is neither the code of a blank nor of a line end. -/
theorem ne_of_notSpace {c : Char} (h : isSpace c = false) : c.toNat ≠ 32 ∧ c.toNat ≠ 10 := by
  simp only [isSpace, Bool.or_eq_false_iff, Bool.and_eq_false_iff, decide_eq_false_iff_not] at h
  omega

theorem mem_ofString {n : Nat} {s : String} (h : n ∈ Text.ofString s) :
    ∃ c ∈ s.toList, c.toNat = n :=
  List.mem_map.mp h

/-- A pin is one word. -/
theorem word_of_pin {s : String} (h : isOciDigestPin s = true) :
    Text.ofString s ≠ [] ∧ 32 ∉ Text.ofString s ∧ 10 ∉ Text.ofString s := by
  refine ⟨?_, fun hmem => ?_, fun hmem => ?_⟩
  · intro hnil
    have hs : s = "" := by
      rw [← String.toList_inj]
      exact List.map_eq_nil_iff.mp hnil
    rw [hs] at h
    cases h
  · obtain ⟨c, hc, hn⟩ := mem_ofString hmem
    exact (ne_of_notSpace (isSpace_of_mem_pin h hc)).1 hn
  · obtain ⟨c, hc, hn⟩ := mem_ofString hmem
    exact (ne_of_notSpace (isSpace_of_mem_pin h hc)).2 hn

theorem lineEnd_notMem_jsonCommand (command : List String) : 10 ∉ jsonCommand command := by
  intro h
  have := isPrintable_dump (.arr (command.map jsonString)) 10 h
  omega

theorem lineEnd_notMem_textLine {keyword : String} {rest : Text} (hkeyword : '\n' ∉ keyword.toList)
    (hrest : 10 ∉ rest) : 10 ∉ textLine keyword rest := by
  intro h
  obtain h | h := List.mem_append.mp h
  · obtain ⟨c, hc, hn⟩ := mem_ofString h
    rw [String.toList_append, List.mem_append] at hc
    obtain hc | hc := hc
    · have hc' : c = '\n' := Char.toNat_inj.mp hn
      exact hkeyword (hc' ▸ hc)
    · rw [List.mem_singleton.mp hc] at hn
      cases hn
  · exact hrest h

theorem wellFormed_execInstruction {keyword : String} {command : List String}
    (h : Text.ofString keyword ∈ execKeywords) : (execInstruction keyword command).WellFormed := by
  refine .exec h fun t ht => ?_
  obtain ⟨s, -, rfl⟩ := List.mem_map.mp ht
  exact Text.all_isScalar_ofString s

theorem wellFormed_workdirInstruction (directory : String) :
    (workdirInstruction directory).WellFormed :=
  .line (by decide)

theorem exec_run : Text.ofString "RUN" ∈ execKeywords := by decide

/-- An instruction of a command has one line. -/
theorem lineEnd_execInstruction {keyword : String} (h : '\n' ∉ keyword.toList)
    (command : List String) : 10 ∉ (execInstruction keyword command).text := by
  rw [text_execInstruction]
  exact lineEnd_notMem_textLine h (lineEnd_notMem_jsonCommand command)

/-- A directory has a line end exactly when its package has one. -/
theorem lineEnd_packageDirectory (package : String) :
    10 ∈ Text.ofString (packageDirectory package) ↔ '\n' ∈ package.toList := by
  have hmem : ∀ s : String, 10 ∈ Text.ofString s ↔ '\n' ∈ s.toList := by
    intro s
    constructor
    · intro h
      obtain ⟨c, hc, hn⟩ := mem_ofString h
      have hc' : c = '\n' := Char.toNat_inj.mp hn
      exact hc' ▸ hc
    · intro h
      exact List.mem_map.mpr ⟨'\n', h, rfl⟩
  rw [hmem, packageDirectory]
  split
  · rename_i hdot
    rw [beq_iff_eq.mp hdot]
    decide
  · rw [String.toList_append, List.mem_append]
    exact or_iff_right (by decide)

/-! ## The main result -/

/-- Every instruction of the template is well formed. -/
theorem wellFormed_template (wrapper : LogWrapper)
    (hpin : isOciDigestPin (runtimeImage images m.runtime) = true) :
    ∀ i ∈ templateInstructions m images wrapper, i.WellFormed := by
  obtain ⟨hne, hblank, -⟩ := word_of_pin hpin
  have hport : ∀ w ∈ [digits m.port], w ≠ [] ∧ 32 ∉ w := by
    intro w hw
    rw [List.mem_singleton.mp hw]
    obtain ⟨c, t, hdigits, -⟩ := exists_head_digits m.port
    refine ⟨by rw [hdigits]; simp, fun hmem => ?_⟩
    have := isDigit_of_mem_digits hmem
    cases this
  have hfrom : ∀ w ∈ [runtimeImage images m.runtime].map Text.ofString, w ≠ [] ∧ 32 ∉ w := by
    intro w hw
    rw [List.map_singleton, List.mem_singleton] at hw
    rw [hw]
    exact ⟨hne, hblank⟩
  intro i hi
  simp only [templateInstructions, List.mem_append, List.mem_cons, List.not_mem_nil, or_false,
    List.mem_flatMap, List.mem_map] at hi
  obtain (((((rfl | rfl | rfl) | ⟨p, -, rfl | rfl⟩) | rfl) | ⟨script, -, rfl⟩) |
    (rfl | rfl | rfl | rfl | rfl | rfl)) := hi
  · exact .words (by decide) (by decide) (by decide) (by simp) hfrom
  · exact wellFormed_workdirInstruction _
  · exact .words (by decide) (by decide) (by decide) (by decide) (by decide)
  · exact wellFormed_workdirInstruction _
  · exact wellFormed_execInstruction exec_run
  · exact wellFormed_workdirInstruction _
  · exact wellFormed_execInstruction exec_run
  · exact wellFormed_execInstruction exec_run
  · exact .words (by decide) (by decide) (by decide) (by decide) (by decide)
  · exact .words (by decide) (by decide) (by decide) (by decide) (by decide)
  · exact .words (by decide) (by decide) (by decide) (by simp) hport
  · exact wellFormed_execInstruction (by decide)
  · exact wellFormed_execInstruction (by decide)

/-- No line end is inside an instruction of the template, when none is inside a package path. -/
theorem lineEnd_template (wrapper : LogWrapper)
    (hpin : isOciDigestPin (runtimeImage images m.runtime) = true)
    (hpackages : ∀ p ∈ m.packages, '\n' ∉ p.toList) :
    ∀ i ∈ templateInstructions m images wrapper, 10 ∉ i.text := by
  obtain ⟨-, -, himage⟩ := word_of_pin hpin
  have hport : 10 ∉ digits m.port := by
    intro hmem
    have := isDigit_of_mem_digits hmem
    cases this
  have hexpose : (Instruction.words (Text.ofString "EXPOSE") [digits m.port]).text =
      textLine "EXPOSE" (digits m.port) := by
    simp [Instruction.text, textLine, Text.ofString, List.intercalate]
  intro i hi
  simp only [templateInstructions, List.mem_append, List.mem_cons, List.not_mem_nil, or_false,
    List.mem_flatMap, List.mem_map] at hi
  obtain (((((rfl | rfl | rfl) | ⟨p, hp, rfl | rfl⟩) | rfl) | ⟨script, -, rfl⟩) |
    (rfl | rfl | rfl | rfl | rfl | rfl)) := hi
  · rw [text_wordsInstruction]
    exact lineEnd_notMem_textLine (by decide) himage
  · decide
  · decide
  · rw [text_workdirInstruction]
    refine lineEnd_notMem_textLine (by decide) ?_
    rw [lineEnd_packageDirectory]
    exact hpackages p hp
  · exact lineEnd_execInstruction (by decide) _
  · decide
  · exact lineEnd_execInstruction (by decide) _
  · exact lineEnd_execInstruction (by decide) _
  · decide
  · decide
  · rw [hexpose]
    exact lineEnd_notMem_textLine (by decide) hport
  · exact lineEnd_execInstruction (by decide) _
  · exact lineEnd_execInstruction (by decide) _

/-- Accepted packages are written as they are. -/
theorem packages_of_valid {packages : List String} (h : ValidPackages packages) :
    (packages.mapM fun value => validated (relativePath "package path" value)) = .ok packages := by
  have hpath : ∀ p ∈ packages, validated (relativePath "package path" p) = .ok p := by
    intro p hp
    have := h.path p hp
    simpa [packagePath, jsonString, asText] using this
  clear h
  induction packages with
  | nil => rfl
  | cons p packages ih =>
    rw [List.mapM_cons, hpath p List.mem_cons_self,
      ih fun q hq => hpath q (List.mem_cons_of_mem _ hq)]
    rfl

/-- The Dockerfile of a valid configuration consists of the lines of the template. -/
theorem generateRecipe_ok {sha256 : Text → String} {wrapper : LogWrapper} {recipe : Recipe}
    (hvalid : ValidPackages m.packages) (h : generateRecipe sha256 wrapper m images = .ok recipe) :
    isOciDigestPin (runtimeImage images m.runtime) = true ∧
      recipe.dockerfile = List.intercalate [10]
        ((templateInstructions m images wrapper).map Instruction.text ++ [[]]) := by
  simp only [generateRecipe, check_bind_eq_ok] at h
  obtain ⟨-, -, -, h⟩ := h
  obtain ⟨r, hr, h⟩ := bind_eq_ok.mp h
  obtain ⟨packages, hpackages, h⟩ := bind_eq_ok.mp h
  obtain ⟨-, h⟩ := check_bind_eq_ok.mp h
  obtain ⟨health, -, h⟩ := bind_eq_ok.mp h
  cases h
  cases (packages_of_valid hvalid).symm.trans hpackages
  obtain ⟨-, himage, hpin, -⟩ := runtimeCommands_ok hr
  exact ⟨himage ▸ hpin, by rw [recipeLines_eq hr]⟩

/-- **The Dockerfile of an accepted configuration is faithful** exactly when no package path has a
line end in it.  A path is the one text of an owner that is neither escaped nor of a restricted
alphabet, and what follows a line end is read as the next instruction. -/
theorem faithful_iff {sha256 : Text → String} {wrapper : LogWrapper} {payload : Payload}
    {c : DeploymentConfiguration} {resources : String → Option (String × String)} {m : Manifest}
    {images : RuntimeImages} {recipe : Recipe} (hc : parseConfiguration payload = .ok c)
    (hm : c.manifest resources = .ok m)
    (h : generateRecipe sha256 wrapper m images = .ok recipe) :
    Faithful m images wrapper recipe ↔ ∀ p ∈ c.packages, '\n' ∉ p.toList := by
  obtain ⟨-, hpackages, -⟩ := manifest_ok hm
  have hvalid : ValidPackages m.packages := hpackages ▸ (parseConfiguration_valid hc).packages
  obtain ⟨hpin, hdockerfile⟩ := generateRecipe_ok hvalid h
  rw [Faithful, hdockerfile, ← hpackages]
  constructor
  · intro hread p hp hmem
    have hpackage : workdirInstruction (packageDirectory p) ∈ m.packages.flatMap fun package =>
        [workdirInstruction (packageDirectory package),
          execInstruction "RUN" (installCommand m.runtime)] :=
      List.mem_flatMap.mpr ⟨p, hp, List.mem_cons_self⟩
    have htemplate :
        workdirInstruction (packageDirectory p) ∈ templateInstructions m images wrapper :=
      List.mem_append_left _ (List.mem_append_left _ (List.mem_append_left _
        (List.mem_append_right _ hpackage)))
    exact notMem_of_read hread htemplate ((lineEnd_packageDirectory p).mpr hmem)
  · intro hline
    exact read_join (wellFormed_template wrapper hpin) (lineEnd_template wrapper hpin hline)

/-! ## Two configurations -/

/-- A configuration with one package. -/
def packageConfiguration (package : String) (buildScript : Option String) : Value :=
  .obj [(Text.ofString "schemaVersion", .int 1),
    (Text.ofString "build", .obj [(Text.ofString "runtime", jsonString "node"),
      (Text.ofString "packages", .arr [jsonString package]),
      (Text.ofString "buildScript", jsonOptional buildScript),
      (Text.ofString "startScript", jsonString "start")]),
    (Text.ofString "runtime", .obj [(Text.ofString "port", .int 3000),
      (Text.ofString "healthPath", jsonString "/health")]),
    (Text.ofString "storageBindings", .arr [])]

theorem packageConfiguration_distinct (package : String) (buildScript : Option String) :
    distinctKeys (packageConfiguration package buildScript) = true := by
  cases buildScript <;> rfl

/-- The image of a Node.js build. -/
def nodeImage : String :=
  "docker.io/library/node@sha256:cc63cf4a8d9554df7424de977b66d9b6327e0a56344b84b592e08836e1a4c04a"

/-- An empty wrapper. -/
def emptyWrapper : LogWrapper where
  base64 := ""
  sha256 := "e3b0c44298fc1c149afbf4c8996fb92427ae41e4649b934ca495991b7852b855"

/-- What is made of a configuration with one package. -/
def packageRecipe (sha256 : Text → String) (package : String) (buildScript : Option String) :
    Except Error (DeploymentConfiguration × Manifest × Recipe) := do
  let c ← parseConfiguration (.mapping (packageConfiguration package buildScript)
    (packageConfiguration_distinct package buildScript))
  let m ← c.manifest fun _ => none
  let recipe ← generateRecipe sha256 emptyWrapper m ⟨nodeImage, nodeImage⟩
  return (c, m, recipe)

theorem eq_ok_of_toOption {α : Type} {x : Except Error α} {a : α} (h : x.toOption = some a) :
    x = .ok a := by
  cases x with
  | ok b => rw [Option.some.inj h]
  | error e => exact absurd h (by simp [Except.toOption])

theorem packageRecipe_eq_ok {sha256 : Text → String} {package : String}
    {buildScript : Option String} {x : DeploymentConfiguration × Manifest × Recipe}
    (h : packageRecipe sha256 package buildScript = .ok x) :
    parseConfiguration (.mapping (packageConfiguration package buildScript)
        (packageConfiguration_distinct package buildScript)) = .ok x.1 ∧
      (x.1.manifest fun _ => none) = .ok x.2.1 ∧
      generateRecipe sha256 emptyWrapper x.2.1 ⟨nodeImage, nodeImage⟩ = .ok x.2.2 := by
  simp only [packageRecipe, bind_eq_ok] at h
  obtain ⟨c, hc, m, hm, recipe, hrecipe, h⟩ := h
  cases h
  exact ⟨hc, hm, hrecipe⟩

/-- What is read of the Dockerfile of a package path with a line end. -/
theorem packageRecipe_lineEnd :
    (packageRecipe (fun _ => "5dea04fdb42ca22b7c71e5586563215d5279ea6a2f031e1d1b24b1dd49c7cd32")
        "a\nRUN id" none).toOption.map (fun x =>
      (x.1.packages, decide (Faithful x.2.1 ⟨nodeImage, nodeImage⟩ emptyWrapper x.2.2),
        ((Dockerfile.read x.2.2.dockerfile).getD []).contains
          (.line (Text.ofString "RUN") (Text.ofString "id")))) =
      some (["a\nRUN id"], false, true) := by
  decide +kernel

/-- A package path with a line end is accepted, and what follows the line end is an instruction of
its own. -/
theorem package_adds_instruction :
    ∃ c m recipe,
      parseConfiguration (.mapping (packageConfiguration "a\nRUN id" none)
        (packageConfiguration_distinct _ _)) = .ok c ∧
      (c.manifest fun _ => none) = .ok m ∧
      generateRecipe
        (fun _ => "5dea04fdb42ca22b7c71e5586563215d5279ea6a2f031e1d1b24b1dd49c7cd32")
        emptyWrapper m ⟨nodeImage, nodeImage⟩ = .ok recipe ∧
      ¬ Faithful m ⟨nodeImage, nodeImage⟩ emptyWrapper recipe ∧
      .line (Text.ofString "RUN") (Text.ofString "id") ∈
        (Dockerfile.read recipe.dockerfile).getD [] := by
  obtain ⟨x, hx, hfacts⟩ := Option.map_eq_some_iff.mp packageRecipe_lineEnd
  obtain ⟨-, hfacts⟩ := Prod.mk.inj hfacts
  obtain ⟨hfaithful, hrun⟩ := Prod.mk.inj hfacts
  obtain ⟨hc, hm, hrecipe⟩ := packageRecipe_eq_ok (eq_ok_of_toOption hx)
  exact ⟨x.1, x.2.1, x.2.2, hc, hm, hrecipe, of_decide_eq_false hfaithful,
    List.contains_iff_mem.mp hrun⟩

/-- A configuration with a package below the root and a build script has a faithful Dockerfile. -/
theorem package_faithful :
    ∃ m recipe, Faithful m ⟨nodeImage, nodeImage⟩ emptyWrapper recipe ∧
      m.packages = ["packages/api"] ∧ m.buildScript = some "build" := by
  have hfacts : ((packageRecipe
      (fun _ => "8a46dcd2d97ad9bc8743bad4473b6f33fab8c857c3ed68380f169842882e8abf")
      "packages/api" (some "build")).toOption.map fun x => (x.1.packages, x.2.1.buildScript)) =
      some (["packages/api"], some "build") := by
    decide +kernel
  obtain ⟨x, hx, hpair⟩ := Option.map_eq_some_iff.mp hfacts
  obtain ⟨hpackages, hscript⟩ := Prod.mk.inj hpair
  obtain ⟨hc, hm, hrecipe⟩ := packageRecipe_eq_ok (eq_ok_of_toOption hx)
  refine ⟨x.2.1, x.2.2, (faithful_iff hc hm hrecipe).mpr ?_, ?_, hscript⟩
  · rw [hpackages]
    decide
  · rw [(manifest_ok hm).2.1, hpackages]

end Controller
end OpenstackPlatform
