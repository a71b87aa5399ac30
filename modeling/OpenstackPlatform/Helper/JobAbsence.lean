import OpenstackPlatform.Helper.NomadJobs
import OpenstackPlatform.Json
import OpenstackPlatform.Library.Text

/-!
# Whether a job is there

`_exact_absence`, `_status_or_absent`, `_inspected_job` and `_only_job_id` of
`helper/application_actions.py`.  The Nomad command resolves an ID: it prints the job with exactly
that ID, else the only job whose ID begins with it, else a list of such jobs, else that there is
none.  So whether a job is there is read from the JSON of another job, from a table, or from a
diagnostic.

* `exactAbsence`: the two diagnostics.
* `inspectedJob`, `statusOrAbsent`, `onlyJobId`: the three callers.
* `Resolves`: the rule by which the command answers; `nomad` follows it.
* `shadowed`, `overlooked`: the only other job that begins with the ID hides that there is none.
* `InspectsExactly`, `StatusExactly`, `OnlyExactly`: what the callers should answer, told the jobs
  that are registered.
* `exact_iff`: the answers are exact if and only if nothing is hidden.
-/

namespace OpenstackPlatform
namespace Helper
namespace JobAbsence

open Library Validation

/-! ## Diagnostics -/

/-- The quotes that a diagnostic may use. -/
def quotes : List Char := ['\'', '"']

/-- How a diagnostic names what was looked for. -/
def phrases : List (List Char) := ["(s) with prefix or ID ".toList, " with ID ".toList]

/-- `\s*No job(?:\(s\) with prefix or ID| with ID) ['\"]...['\"] found\s*` -/
def isNoJob (slug text : List Char) : Bool :=
  phrases.any fun phrase => quotes.any fun opening => quotes.any fun closing =>
    strip text == "No job".toList ++ phrase ++ opening :: slug ++ closing :: " found".toList

/-- A literal at the front of a text. -/
def literal (word text : List Char) : Option (List Char) :=
  if word.isPrefixOf text then some (text.drop word.length) else none

/-- `['\"]` -/
def quote (text : List Char) : Option (List Char) :=
  match text with
  | [] => none
  | c :: rest => if quotes.contains c then some rest else none

/-- `\s+`, before something that is not a space. -/
def blanks (text : List Char) : Option (List Char) :=
  if (text.takeWhile isSpace).isEmpty then none else some (text.dropWhile isSpace)

/-- `\s*\n\s*`, before something that is not a space. -/
def newline (text : List Char) : Option (List Char) :=
  if (text.takeWhile isSpace).contains '\n' then some (text.dropWhile isSpace) else none

/-- The rows of a listing: what follows `Prefix "..." matched multiple jobs` and the header. -/
def listing (slug text : List Char) : Option (List Char) := do
  let text ← literal "Prefix ".toList (text.dropWhile isSpace)
  let text ← quote text
  let text ← literal slug text
  let text ← quote text
  let text ← literal " matched multiple jobs".toList text
  let text ← newline text
  let text ← literal "ID".toList text
  let text ← blanks text
  let text ← literal "Type".toList text
  let text ← blanks text
  let text ← literal "Priority".toList text
  let text ← blanks text
  let text ← literal "Status".toList text
  let text ← blanks text
  let text ← literal "Submit Date".toList text
  newline text

/-- The characters at which `str.splitlines` splits. -/
def isLineBreak (c : Char) : Bool :=
  [10, 11, 12, 13, 28, 29, 30, 0x85, 0x2028, 0x2029].contains c.toNat

/-- `line.split()[0]` -/
def firstWord (line : List Char) : List Char :=
  (line.dropWhile isSpace).takeWhile fun c => !isSpace c

/-- The first words of the lines that are not blank. -/
def firstWords (rows : List Char) : List (List Char) :=
  ((rows.splitOnP isLineBreak).filter fun line => line.any fun c => !isSpace c).map firstWord

/-- `_exact_absence`; bytes that are not UTF-8 have no text. -/
def exactAbsence (stderr : Option (List Char)) (slug : List Char) : Bool :=
  match stderr with
  | none => false
  | some text =>
    isNoJob slug text ||
      match listing slug text with
      | none => false
      | some rows =>
        decide (1 < (firstWords rows).length) &&
          (firstWords rows).all fun id => id != slug && slug.isPrefixOf id

/-! ## Callers -/

/-- A verb of the Nomad command. -/
inductive Verb where
  | inspect
  | status
  deriving DecidableEq

/-- What the command left: its output read as JSON, unless it is malformed, and its diagnostics. -/
structure Completed where
  returncode : ℤ
  stdout : Option Json
  stderr : Option (List Char)

/-- `command_runner`, for the two verbs and an ID. -/
abbrev Runner := Verb → String → Completed

/-- `value.get(key)`, for an object. -/
def field (key : String) : Json → Option Json
  | .obj members => members.lookup key
  | _ => none

/-- `isinstance(value, dict)` -/
def isObject : Json → Bool
  | .obj _ => true
  | _ => false

/-- `value.get(key) == text` -/
def fieldIs (key text : String) (value : Json) : Bool :=
  match field key value with
  | some (.str s) => s == text
  | _ => false

/-- `f"{job_id}-candidate"` -/
def candidate (id : String) : String := id ++ "-candidate"

/-- `job_id.endswith("-candidate")` -/
def isCandidate (id : String) : Bool := "-candidate".toList.isSuffixOf id.toList

def invalidResponse (message : String) : Error := .helperAction "NOMAD_RESPONSE_INVALID" message

/-- `_inspected_job` -/
def inspectedJob (run : Runner) (id : String) : Except Error (Option Json) :=
  let completed := run .inspect id
  if completed.returncode ≠ 0 then
    if completed.returncode = 1 ∧ exactAbsence completed.stderr id.toList then .ok none
    else .error (.helperAction "NOMAD_UNAVAILABLE" "Nomad job inspection was unavailable")
  else
    match completed.stdout with
    | none => .error (invalidResponse "Nomad job inspection response was malformed")
    | some value =>
      if !isObject value then .error (invalidResponse "Nomad returned an unexpected job")
      else if fieldIs "ID" id value then .ok (some value)
      else if !isCandidate id && fieldIs "ID" (candidate id) value then .ok none
      else .error (invalidResponse "Nomad returned an unexpected job")

/-- The allocations of the array form: its only row may carry them. -/
def projection (rows : List Json) : Json :=
  match rows with
  | [row] => (field "Allocations" row).getD (.arr rows)
  | _ => .arr rows

/-- The rows of an array. -/
def rowsOf : Json → Option (List Json)
  | .arr rows => some rows
  | _ => none

/-- `item.get("ClientStatus") in {"pending", "running"} and item.get("DesiredStatus") == "run"` -/
def isRunning (row : Json) : Bool :=
  (fieldIs "ClientStatus" "pending" row || fieldIs "ClientStatus" "running" row) &&
    fieldIs "DesiredStatus" "run" row

/-- The answer for the array form. -/
def reduced (id status : String) : Json := .obj [("ID", .str id), ("Status", .str status)]

/-- `_status_or_absent`, for an array. -/
def statusOfRows (run : Runner) (id : String) (rows : List Json) : Except Error (Option Json) := do
  let allocations := rowsOf (projection rows)
  if allocations.any List.isEmpty then
    let inspected ← inspectedJob run id
    if inspected.isSome then return some (reduced id "dead")
  if allocations.any fun rows => !rows.isEmpty && rows.all (fieldIs "JobID" id) then
    return some (reduced id
      (if allocations.any (fun rows => rows.any isRunning) then "running" else "dead"))
  if allocations.any fun rows =>
      !rows.isEmpty && !isCandidate id && rows.all (fieldIs "JobID" (candidate id)) then
    return none
  throw (invalidResponse "Nomad returned an unexpected job")

/-- `_status_or_absent` -/
def statusOrAbsent (run : Runner) (id : String) : Except Error (Option Json) :=
  let completed := run .status id
  if completed.returncode = 0 then
    match completed.stdout with
    | none => .error (invalidResponse "Nomad job status response was malformed")
    | some value =>
      if fieldIs "ID" id value then .ok (some value)
      else if !isCandidate id && fieldIs "ID" (candidate id) value then .ok none
      else
        match rowsOf value with
        | some rows => statusOfRows run id rows
        | none => .error (invalidResponse "Nomad returned an unexpected job")
  else if completed.returncode ≠ 1 ∨ exactAbsence completed.stderr id.toList = false then
    .error (.helperAction "NOMAD_UNAVAILABLE" "Nomad job state was unavailable")
  else .ok none

/-- The end of `_only_job_id`, with which of the two jobs there are. -/
def onlyOf (slug : String) (stable staged : Bool) : Except Error String :=
  match stable, staged with
  | true, true =>
    .error (.helperAction "JOB_AMBIGUOUS" "multiple application deployment jobs remain")
  | false, true => .ok (candidate slug)
  | _, false => .ok slug

/-- `_only_job_id` -/
def onlyJobId (run : Runner) (slug : String) : Except Error String := do
  let stable ← inspectedJob run slug
  let staged ← inspectedJob run (candidate slug)
  onlyOf slug stable.isSome staged.isSome

/-! ## The command -/

/-- A row of the array form belongs to a job. -/
structure IsRow (id : String) (row : Json) : Prop where
  job : fieldIs "JobID" id row = true
  plain : field "Allocations" row = none

/-- What `job status -json` may print of a job. -/
inductive IsStatus (id : String) : Json → Prop where
  | object {value : Json} (h : fieldIs "ID" id value = true) : IsStatus id value
  | rows {rows : List Json} (h : ∀ row ∈ rows, IsRow id row) : IsStatus id (.arr rows)
  | wrapped {row : Json} {rows : List Json} (h : field "Allocations" row = some (.arr rows))
      (hrows : ∀ row ∈ rows, IsRow id row) : IsStatus id (.arr [row])

/-- A registered job, with what the command prints of it.  An ID is one word. -/
structure Job where
  id : String
  inspection : Json
  status : Json
  id_ne : id.toList ≠ []
  id_word : ∀ c ∈ id.toList, isSpace c = false
  inspection_id : fieldIs "ID" id inspection = true
  status_id : IsStatus id status

/-- What the command prints of a job. -/
def Job.printed (job : Job) : Verb → Json
  | .inspect => job.inspection
  | .status => job.status

/-- The jobs whose ID begins with a text. -/
def matching (jobs : List Job) (id : String) : List Job :=
  jobs.filter fun job => id.toList.isPrefixOf job.id.toList

/-- A job has this ID. -/
def registered (jobs : List Job) (id : String) : Bool := jobs.any fun job => job.id == id

/-- Blank characters with a line end among them. -/
def IsGap (gap : List Char) : Prop := (∀ c ∈ gap, isSpace c = true) ∧ '\n' ∈ gap

/-- Blank characters, at least one. -/
def IsBlank (blank : List Char) : Prop := (∀ c ∈ blank, isSpace c = true) ∧ blank ≠ []

/-- A row of a listing: the ID, and columns after a blank. -/
def rowText (columns : String → List Char) (job : Job) : List Char :=
  job.id.toList ++ columns job.id ++ ['\n']

/-- The listing of some jobs. -/
inductive IsListing (id : String) (jobs : List Job) : List Char → Prop where
  | mk {before gap blank₁ blank₂ blank₃ blank₄ gap' : List Char} {opening closing : Char}
      {columns : String → List Char} (hbefore : ∀ c ∈ before, isSpace c = true)
      (hopening : opening ∈ quotes) (hclosing : closing ∈ quotes) (hgap : IsGap gap)
      (h₁ : IsBlank blank₁) (h₂ : IsBlank blank₂) (h₃ : IsBlank blank₃) (h₄ : IsBlank blank₄)
      (hgap' : IsGap gap')
      (hcolumns : ∀ job ∈ jobs, (∀ c ∈ columns job.id, isLineBreak c = false) ∧
        ∀ c ∈ (columns job.id).head?, isSpace c = true) :
      IsListing id jobs (before ++ ("Prefix ".toList ++ opening :: (id.toList ++ closing ::
        (" matched multiple jobs".toList ++ (gap ++ ("ID".toList ++ (blank₁ ++ ("Type".toList ++
        (blank₂ ++ ("Priority".toList ++ (blank₃ ++ ("Status".toList ++ (blank₄ ++
        ("Submit Date".toList ++ (gap' ++ jobs.flatMap (rowText columns))))))))))))))))

/-- How the command answers, told the jobs that are registered. -/
structure Resolves (jobs : List Job) (run : Runner) : Prop where
  /-- the job with exactly the ID -/
  exact : ∀ verb, ∀ job ∈ jobs, (run verb job.id).returncode = 0 ∧
    (run verb job.id).stdout = some (job.printed verb)
  /-- else the only job whose ID begins with it -/
  sole : ∀ verb id job, registered jobs id = false → matching jobs id = [job] →
    (run verb id).returncode = 0 ∧ (run verb id).stdout = some (job.printed verb)
  /-- else the list of such jobs -/
  listed : ∀ verb id, registered jobs id = false → 2 ≤ (matching jobs id).length →
    (run verb id).returncode = 1 ∧
      ∃ text, (run verb id).stderr = some text ∧ IsListing id (matching jobs id) text
  /-- or that there is none -/
  absent : ∀ verb id, matching jobs id = [] → (run verb id).returncode = 1 ∧
    ∃ text, (run verb id).stderr = some text ∧ isNoJob id.toList text = true

/-! ## Listings are read back -/

section Listings

theorem literal_append (word rest : List Char) : literal word (word ++ rest) = some rest := by
  rw [literal, if_pos, List.drop_left]
  exact List.isPrefixOf_iff_prefix.mpr (List.prefix_append word rest)

theorem quote_cons {c : Char} (h : c ∈ quotes) (rest : List Char) : quote (c :: rest) = some rest :=
  if_pos (List.contains_iff_mem.mpr h)

variable {rest : List Char}

theorem dropWhile_spaces {spaces : List Char} (h : ∀ c ∈ spaces, isSpace c = true)
    (hrest : ∀ c ∈ rest.head?, isSpace c = false) :
    (spaces ++ rest).dropWhile isSpace = rest ∧ (spaces ++ rest).takeWhile isSpace = spaces := by
  have hstop : rest.dropWhile isSpace = rest ∧ rest.takeWhile isSpace = [] := by
    cases rest with
    | nil => exact ⟨rfl, rfl⟩
    | cons c rest =>
      have hc := hrest c rfl
      exact ⟨List.dropWhile_cons_of_neg (by rw [hc]; exact Bool.false_ne_true),
        List.takeWhile_cons_of_neg (by rw [hc]; exact Bool.false_ne_true)⟩
  rw [List.dropWhile_append_of_pos h, List.takeWhile_append_of_pos h, hstop.1, hstop.2,
    List.append_nil]
  exact ⟨rfl, rfl⟩

theorem blanks_append {blank : List Char} (h : IsBlank blank)
    (hrest : ∀ c ∈ rest.head?, isSpace c = false) : blanks (blank ++ rest) = some rest := by
  obtain ⟨hdrop, htake⟩ := dropWhile_spaces h.1 hrest
  rw [blanks, htake, hdrop, if_neg]
  rw [List.isEmpty_iff]
  exact h.2

theorem newline_append {gap : List Char} (h : IsGap gap)
    (hrest : ∀ c ∈ rest.head?, isSpace c = false) : newline (gap ++ rest) = some rest := by
  obtain ⟨hdrop, htake⟩ := dropWhile_spaces h.1 hrest
  rw [newline, htake, hdrop, if_pos (List.contains_iff_mem.mpr h.2)]

/-- The head of a text that begins with a word. -/
theorem head?_word {word : List Char} (hne : word ≠ []) (hword : ∀ c ∈ word, isSpace c = false) :
    ∀ c ∈ (word ++ rest).head?, isSpace c = false := by
  intro c hc
  cases word with
  | nil => exact absurd rfl hne
  | cons d word =>
    obtain rfl := Option.some.inj hc
    exact hword d List.mem_cons_self

theorem isSpace_of_isLineBreak {c : Char} (h : isSpace c = false) : isLineBreak c = false := by
  rw [Bool.eq_false_iff]
  intro hbreak
  have hmem := List.contains_iff_mem.mp hbreak
  have hspace : isSpace c = true := by
    simp only [List.mem_cons, List.not_mem_nil, or_false] at hmem
    unfold isSpace
    obtain hc | hc | hc | hc | hc | hc | hc | hc | hc | hc := hmem <;> rw [hc] <;> decide
  rw [hspace] at h
  cases h

/-- The first words of the rows of a listing are the IDs. -/
theorem firstWords_rows {columns : String → List Char} {jobs : List Job}
    (h : ∀ job ∈ jobs, (∀ c ∈ columns job.id, isLineBreak c = false) ∧
      ∀ c ∈ (columns job.id).head?, isSpace c = true) :
    firstWords (jobs.flatMap (rowText columns)) = jobs.map fun job => job.id.toList := by
  induction jobs with
  | nil => rfl
  | cons job jobs ih =>
    obtain ⟨hbreaks, hhead⟩ := h job List.mem_cons_self
    have ih := ih fun job hjob => h job (List.mem_cons_of_mem _ hjob)
    have hline : ∀ c ∈ job.id.toList ++ columns job.id, isLineBreak c = false := by
      intro c hc
      obtain hc | hc := List.mem_append.mp hc
      · exact isSpace_of_isLineBreak (job.id_word c hc)
      · exact hbreaks c hc
    have hsplit : ((job :: jobs).flatMap (rowText columns)).splitOnP isLineBreak =
        (job.id.toList ++ columns job.id) ::
          (jobs.flatMap (rowText columns)).splitOnP isLineBreak := by
      rw [List.flatMap_cons, rowText, List.append_assoc]
      exact List.splitOnP_append_cons_of_forall_mem hline '\n' (by decide) _
    have hnonspace : ∀ c ∈ job.id.toList, (!isSpace c) = true := by
      intro c hc
      rw [job.id_word c hc]
      rfl
    have hstop : (columns job.id).takeWhile (fun c => !isSpace c) = [] := by
      cases hcolumns : columns job.id with
      | nil => rfl
      | cons c rest =>
        rw [hcolumns] at hhead
        have hc := hhead c rfl
        exact List.takeWhile_cons_of_neg (by rw [hc]; exact Bool.false_ne_true)
    have hdrop : (job.id.toList ++ columns job.id).dropWhile isSpace =
        job.id.toList ++ columns job.id :=
      (dropWhile_spaces (fun c hc => absurd hc List.not_mem_nil)
        (head?_word job.id_ne job.id_word)).1
    have hword : firstWord (job.id.toList ++ columns job.id) = job.id.toList := by
      rw [firstWord, hdrop, List.takeWhile_append_of_pos hnonspace, hstop, List.append_nil]
    have hany : (job.id.toList ++ columns job.id).any (fun c => !isSpace c) = true := by
      obtain ⟨c, hc⟩ := List.exists_mem_of_ne_nil _ job.id_ne
      exact List.any_eq_true.mpr ⟨c, List.mem_append_left _ hc, hnonspace c hc⟩
    have hfilter : ∀ lines : List (List Char),
        ((job.id.toList ++ columns job.id) :: lines).filter (fun line => line.any fun c => !isSpace c) =
          (job.id.toList ++ columns job.id) ::
            lines.filter fun line => line.any fun c => !isSpace c :=
      fun lines => List.filter_cons_of_pos hany
    rw [firstWords, hsplit, hfilter, List.map_cons, hword, List.map_cons, ← ih]
    rfl

/-- The listing of jobs is taken apart to its rows. -/
theorem listing_of_isListing {id : String} {jobs : List Job} {text : List Char} (hne : jobs ≠ [])
    (h : IsListing id jobs text) :
    ∃ rows, listing id.toList text = some rows ∧ firstWords rows = jobs.map fun job => job.id.toList := by
  cases h with
  | @mk before gap blank₁ blank₂ blank₃ blank₄ gap' opening closing columns hbefore hopening hclosing
      hgap h₁ h₂ h₃ h₄ hgap' hcolumns =>
    refine ⟨jobs.flatMap (rowText columns), ?_, firstWords_rows hcolumns⟩
    have hrows : ∀ c ∈ (jobs.flatMap (rowText columns)).head?, isSpace c = false := by
      cases jobs with
      | nil => exact absurd rfl hne
      | cons job jobs =>
        rw [List.flatMap_cons, rowText, List.append_assoc, List.append_assoc]
        exact head?_word job.id_ne job.id_word
    have hhead : ∀ {word rest : List Char}, (word.head?.any fun c => !isSpace c) = true →
        ∀ c ∈ (word ++ rest).head?, isSpace c = false := by
      intro word rest hword c hc
      cases word with
      | nil => cases hword
      | cons d word =>
        cases hc
        rw [List.head?_cons, Option.any_some, Bool.not_eq_true'] at hword
        exact hword
    unfold listing
    simp only [Option.bind_eq_bind]
    rw [(dropWhile_spaces hbefore (hhead (by decide))).1, literal_append, Option.bind_some,
      quote_cons hopening, Option.bind_some, literal_append, Option.bind_some, quote_cons hclosing,
      Option.bind_some, literal_append, Option.bind_some,
      newline_append hgap (hhead (by decide)), Option.bind_some, literal_append,
      Option.bind_some, blanks_append h₁ (hhead (by decide)), Option.bind_some,
      literal_append, Option.bind_some, blanks_append h₂ (hhead (by decide)),
      Option.bind_some, literal_append, Option.bind_some,
      blanks_append h₃ (hhead (by decide)), Option.bind_some, literal_append,
      Option.bind_some, blanks_append h₄ (hhead (by decide)), Option.bind_some,
      literal_append, Option.bind_some]
    exact newline_append hgap' hrows

/-- A listing of other jobs proves that the job is absent. -/
theorem exactAbsence_of_isListing {id : String} {jobs : List Job} {text : List Char}
    (hmany : 2 ≤ jobs.length) (hother : ∀ job ∈ jobs, job.id ≠ id)
    (hextends : ∀ job ∈ jobs, id.toList.isPrefixOf job.id.toList = true)
    (h : IsListing id jobs text) : exactAbsence (some text) id.toList = true := by
  have hne : jobs ≠ [] := by
    rintro rfl
    simp at hmany
  obtain ⟨rows, hrows, hwords⟩ := listing_of_isListing hne h
  have hall : (firstWords rows).all (fun word => word != id.toList && id.toList.isPrefixOf word) =
      true := by
    rw [hwords, List.all_eq_true]
    intro word hword
    obtain ⟨job, hjob, rfl⟩ := List.mem_map.mp hword
    have hne' : job.id.toList ≠ id.toList := fun heq => hother job hjob (String.toList_injective heq)
    rw [Bool.and_eq_true]
    exact ⟨bne_iff_ne.mpr hne', hextends job hjob⟩
  have hlength : 1 < (firstWords rows).length := by
    rw [hwords, List.length_map]
    omega
  rw [exactAbsence, hrows]
  show (_ || (decide (1 < (firstWords rows).length) && _)) = true
  rw [hall, decide_eq_true hlength, Bool.and_self, Bool.or_true]

end Listings

/-! ## Exactness -/

section Exactness

/-- Another job is printed for an ID that has none, and is not taken for its candidate. -/
def shadowed (jobs : List Job) (id : String) : Bool :=
  !registered jobs id &&
    match matching jobs id with
    | [job] => isCandidate id || job.id != candidate id
    | _ => false

/-- The array form without allocations. -/
def isEmptyProjection (value : Json) : Bool :=
  (rowsOf value).any fun rows => (rowsOf (projection rows)).any List.isEmpty

/-- Another job's status is printed, and it is not taken for the candidate or has no allocations. -/
def overlooked (jobs : List Job) (id : String) : Bool :=
  !registered jobs id &&
    match matching jobs id with
    | [job] => isCandidate id || job.id != candidate id || isEmptyProjection job.status
    | _ => false

/-- `_inspected_job` tells exactly whether the job is there. -/
def InspectsExactly (run : Runner) (jobs : List Job) (id : String) : Prop :=
  (∀ job ∈ jobs, job.id = id → inspectedJob run id = .ok (some job.inspection)) ∧
    (registered jobs id = false → inspectedJob run id = .ok none)

/-- `_status_or_absent` tells exactly whether the job is there.  What it answers of a registered job
has the job's own ID, and the object form is handed on as it was printed. -/
structure StatusExactly (run : Runner) (jobs : List Job) (id : String) : Prop where
  named : registered jobs id = true →
    ∃ value, statusOrAbsent run id = .ok (some value) ∧ fieldIs "ID" id value = true
  printed : ∀ job ∈ jobs, job.id = id → isObject job.status = true →
    statusOrAbsent run id = .ok (some job.status)
  absent : registered jobs id = false → statusOrAbsent run id = .ok none

/-- `_only_job_id` tells which of the application's two jobs is there, whatever else is registered. -/
structure OnlyExactly (run : Runner) (jobs : List Job) (slug : String) : Prop where
  both : registered jobs slug = true → registered jobs (candidate slug) = true →
    onlyJobId run slug =
      .error (.helperAction "JOB_AMBIGUOUS" "multiple application deployment jobs remain")
  staged : registered jobs slug = false → registered jobs (candidate slug) = true →
    onlyJobId run slug = .ok (candidate slug)
  stable : registered jobs slug = true → registered jobs (candidate slug) = false →
    onlyJobId run slug = .ok slug
  neither : registered jobs slug = false → registered jobs (candidate slug) = false →
    onlyJobId run slug = .ok slug

variable {run : Runner} {jobs : List Job} {id : String}

variable {value : Json}

theorem isObject_of_fieldIs {key text : String} (h : fieldIs key text value = true) :
    isObject value = true := by
  cases value with
  | obj members => rfl
  | _ => cases h

/-- A field has one text. -/
theorem fieldIs_iff {key s : String} (h : fieldIs key s value = true) (t : String) :
    fieldIs key t value = true ↔ s = t := by
  unfold fieldIs at h ⊢
  split at h
  · rename_i u hfield
    rw [← eq_of_beq h]
    exact beq_iff_eq
  · cases h

theorem registered_eq_true : registered jobs id = true ↔ ∃ job ∈ jobs, job.id = id := by
  rw [registered, List.any_eq_true]
  exact exists_congr fun job => and_congr_right fun _ => beq_iff_eq

theorem registered_eq_false : registered jobs id = false ↔ ∀ job ∈ jobs, job.id ≠ id := by
  rw [← Bool.not_eq_true, registered_eq_true]
  push Not
  rfl

variable {job : Job}

/-- The job that is printed instead of one that is not there. -/
theorem ne_of_matching (hnone : registered jobs id = false) (hsole : matching jobs id = [job]) :
    job.id ≠ id := by
  have hmem : job ∈ matching jobs id := by
    rw [hsole]
    exact List.mem_singleton_self job
  exact registered_eq_false.mp hnone job (List.mem_filter.mp hmem).1

/-- Without a job to print, the diagnostics prove absence. -/
theorem exactAbsence_of_resolves (h : Resolves jobs run) (verb : Verb)
    (hnone : registered jobs id = false) (hmany : ∀ job, matching jobs id ≠ [job]) :
    (run verb id).returncode = 1 ∧ exactAbsence (run verb id).stderr id.toList = true := by
  by_cases hempty : matching jobs id = []
  · obtain ⟨hcode, text, hstderr, htext⟩ := h.absent verb id hempty
    refine ⟨hcode, ?_⟩
    rw [hstderr, exactAbsence, htext, Bool.true_or]
  · have hlength : 2 ≤ (matching jobs id).length := by
      cases hmatching : matching jobs id with
      | nil => exact absurd hmatching hempty
      | cons job rest =>
        cases rest with
        | nil => exact absurd hmatching (hmany job)
        | cons job' rest =>
          rw [List.length_cons, List.length_cons]
          omega
    obtain ⟨hcode, text, hstderr, htext⟩ := h.listed verb id hnone hlength
    refine ⟨hcode, ?_⟩
    rw [hstderr]
    refine exactAbsence_of_isListing hlength (fun job hjob => ?_) (fun job hjob => ?_) htext
    · exact registered_eq_false.mp hnone job (List.mem_filter.mp hjob).1
    · exact (List.mem_filter.mp hjob).2

/-! ### Inspection -/

/-- What `_inspected_job` makes of a job that is printed. -/
theorem inspectedJob_of_printed (hcode : (run .inspect id).returncode = 0)
    (hstdout : (run .inspect id).stdout = some (job.printed .inspect)) :
    inspectedJob run id =
      if job.id = id then .ok (some job.inspection)
      else if isCandidate id = false ∧ job.id = candidate id then .ok none
      else .error (invalidResponse "Nomad returned an unexpected job") := by
  have hobject := isObject_of_fieldIs job.inspection_id
  unfold inspectedJob
  dsimp only
  rw [if_neg (fun hne => hne hcode), hstdout]
  show (if !isObject job.inspection then _ else if fieldIs "ID" id job.inspection then _
    else if !isCandidate id && fieldIs "ID" (candidate id) job.inspection then _ else _) = _
  rw [if_neg (by rw [hobject]; exact Bool.false_ne_true)]
  by_cases hid : job.id = id
  · rw [if_pos hid, if_pos ((fieldIs_iff job.inspection_id id).mpr hid)]
    rfl
  · rw [if_neg hid, if_neg (mt (fieldIs_iff job.inspection_id id).mp hid)]
    by_cases hcandidate : isCandidate id = false ∧ job.id = candidate id
    · rw [if_pos hcandidate, if_pos]
      rw [hcandidate.1, (fieldIs_iff job.inspection_id _).mpr hcandidate.2]
      rfl
    · rw [if_neg hcandidate, if_neg]
      intro hboth
      rw [Bool.and_eq_true, Bool.not_eq_true'] at hboth
      exact hcandidate ⟨hboth.1, (fieldIs_iff job.inspection_id _).mp hboth.2⟩

theorem inspectedJob_of_registered (h : Resolves jobs run) (hjob : job ∈ jobs) (hid : job.id = id) :
    inspectedJob run id = .ok (some job.inspection) := by
  subst hid
  obtain ⟨hcode, hstdout⟩ := h.exact .inspect job hjob
  rw [inspectedJob_of_printed hcode hstdout, if_pos rfl]

theorem inspectedJob_of_hidden (h : Resolves jobs run) (hnone : registered jobs id = false)
    (hmany : ∀ job, matching jobs id ≠ [job]) : inspectedJob run id = .ok none := by
  obtain ⟨hcode, habsence⟩ := exactAbsence_of_resolves h .inspect hnone hmany
  have hne : (run .inspect id).returncode ≠ 0 := by omega
  unfold inspectedJob
  dsimp only
  rw [if_pos hne, if_pos ⟨hcode, habsence⟩]

theorem inspectedJob_of_sole (h : Resolves jobs run) (hnone : registered jobs id = false)
    (hsole : matching jobs id = [job]) :
    inspectedJob run id =
      if isCandidate id = false ∧ job.id = candidate id then .ok none
      else .error (invalidResponse "Nomad returned an unexpected job") := by
  obtain ⟨hcode, hstdout⟩ := h.sole .inspect id job hnone hsole
  rw [inspectedJob_of_printed hcode hstdout, if_neg (ne_of_matching hnone hsole)]

theorem shadowed_of_sole (hnone : registered jobs id = false) (hsole : matching jobs id = [job]) :
    shadowed jobs id = false ↔ isCandidate id = false ∧ job.id = candidate id := by
  rw [shadowed, hnone, hsole]
  show (isCandidate id || job.id != candidate id) = false ↔ _
  rw [Bool.or_eq_false_iff, bne_eq_false_iff_eq]

theorem shadowed_of_many (hmany : ∀ job, matching jobs id ≠ [job]) : shadowed jobs id = false := by
  unfold shadowed
  split
  · rename_i job hsole
    exact absurd hsole (hmany job)
  · exact Bool.and_false _

/-- Without the job, the answer is right unless another one is printed in its place. -/
theorem inspectedJob_iff (h : Resolves jobs run) (hnone : registered jobs id = false) :
    (shadowed jobs id = false ∧ inspectedJob run id = .ok none) ∨
      (shadowed jobs id = true ∧
        inspectedJob run id = .error (invalidResponse "Nomad returned an unexpected job")) := by
  by_cases hmany : ∀ job, matching jobs id ≠ [job]
  · exact .inl ⟨shadowed_of_many hmany, inspectedJob_of_hidden h hnone hmany⟩
  · obtain ⟨job, hsole⟩ := not_forall_not.mp hmany
    have hshadowed := shadowed_of_sole hnone hsole
    rw [inspectedJob_of_sole h hnone hsole]
    by_cases hcandidate : isCandidate id = false ∧ job.id = candidate id
    · exact .inl ⟨hshadowed.mpr hcandidate, if_pos hcandidate⟩
    · refine .inr ⟨?_, if_neg hcandidate⟩
      exact Bool.not_eq_false _ ▸ mt hshadowed.mp hcandidate

theorem shadowed_of_registered (hsome : registered jobs id = true) : shadowed jobs id = false := by
  rw [shadowed, hsome]
  rfl

theorem inspectsExactly_iff (h : Resolves jobs run) :
    InspectsExactly run jobs id ↔ shadowed jobs id = false := by
  constructor
  · intro hexact
    cases hsome : registered jobs id with
    | true => exact shadowed_of_registered hsome
    | false =>
      obtain ⟨hfree, -⟩ | ⟨-, hanswer⟩ := inspectedJob_iff h hsome
      · exact hfree
      · rw [hexact.2 hsome] at hanswer
        cases hanswer
  · intro hfree
    refine ⟨fun job hjob hid => inspectedJob_of_registered h hjob hid, fun hnone => ?_⟩
    obtain ⟨-, hanswer⟩ | ⟨hshadowed, -⟩ := inspectedJob_iff h hnone
    · exact hanswer
    · rw [hfree] at hshadowed
      cases hshadowed

/-! ### Status -/

/-- What `job status -json` prints: the job, or rows that belong to it. -/
theorem status_cases {owner : String} (h : IsStatus owner value) :
    fieldIs "ID" owner value = true ∨ ∃ rows rows', value = .arr rows ∧
      projection rows = .arr rows' ∧ ∀ row ∈ rows', fieldIs "JobID" owner row = true := by
  cases h with
  | object h => exact .inl h
  | @rows rows h =>
    refine .inr ⟨rows, rows, rfl, ?_, fun row hrow => (h row hrow).job⟩
    unfold projection
    split
    · rename_i row
      rw [(h row (List.mem_singleton_self row)).plain]
      rfl
    · rfl
  | @wrapped row rows h hrows =>
    refine .inr ⟨[row], rows, rfl, ?_, fun row hrow => (hrows row hrow).job⟩
    rw [projection, h]
    rfl

/-- The answer for the array form has the ID. -/
theorem fieldIs_reduced (id status : String) : fieldIs "ID" id (reduced id status) = true :=
  beq_self_eq_true id

/-- The array form without rows asks `_inspected_job`. -/
theorem statusOfRows_nil {rows : List Json} (h : projection rows = .arr []) :
    statusOfRows run id rows = (do
      let inspected ← inspectedJob run id
      if inspected.isSome then return some (reduced id "dead")
      throw (invalidResponse "Nomad returned an unexpected job")) := by
  unfold statusOfRows
  rw [h]
  rfl

/-- The array form with rows that belong to a job. -/
theorem statusOfRows_cons {owner : String} {rows : List Json} {row : Json} {rows' : List Json}
    (h : projection rows = .arr (row :: rows'))
    (howner : ∀ r ∈ row :: rows', fieldIs "JobID" owner r = true) :
    (owner = id →
        ∃ value, statusOfRows run id rows = .ok (some value) ∧ fieldIs "ID" id value = true) ∧
      (owner ≠ id → statusOfRows run id rows =
        if isCandidate id = false ∧ owner = candidate id then .ok none
        else .error (invalidResponse "Nomad returned an unexpected job")) := by
  have hall : ∀ text, (row :: rows').all (fieldIs "JobID" text) = true ↔ owner = text := by
    intro text
    rw [List.all_eq_true]
    constructor
    · intro hrows
      exact (fieldIs_iff (howner row List.mem_cons_self) text).mp (hrows row List.mem_cons_self)
    · rintro rfl
      exact howner
  have hrowsOf : rowsOf (projection rows) = some (row :: rows') := by
    rw [h]
    rfl
  constructor
  · intro hid
    have hpos : (some (row :: rows')).any (fun rows => !rows.isEmpty && rows.all (fieldIs "JobID" id)) =
        true := by
      show (true && (row :: rows').all (fieldIs "JobID" id)) = true
      rw [(hall id).mpr hid, Bool.and_self]
    refine ⟨reduced id (if (some (row :: rows')).any (fun rows => rows.any isRunning) then "running"
      else "dead"), ?_, fieldIs_reduced id _⟩
    unfold statusOfRows
    rw [hrowsOf]
    dsimp only
    rw [if_neg (by exact Bool.false_ne_true), if_pos hpos]
    rfl
  · intro hid
    have hneg : ¬(some (row :: rows')).any
        (fun rows => !rows.isEmpty && rows.all (fieldIs "JobID" id)) = true := by
      show ¬(true && (row :: rows').all (fieldIs "JobID" id)) = true
      rw [Bool.true_and, hall id]
      exact hid
    have hcandidate : (some (row :: rows')).any
        (fun rows => !rows.isEmpty && !isCandidate id &&
          rows.all (fieldIs "JobID" (candidate id))) = true ↔
        isCandidate id = false ∧ owner = candidate id := by
      show (true && !isCandidate id && (row :: rows').all (fieldIs "JobID" (candidate id))) = true ↔ _
      rw [Bool.true_and, Bool.and_eq_true, Bool.not_eq_true', hall]
    unfold statusOfRows
    rw [hrowsOf]
    dsimp only
    rw [if_neg (by exact Bool.false_ne_true), if_neg hneg]
    by_cases hc : isCandidate id = false ∧ owner = candidate id
    · rw [if_pos (hcandidate.mpr hc), if_pos hc]
      rfl
    · rw [if_neg (mt hcandidate.mp hc), if_neg hc]
      rfl

/-- `_status_or_absent`, when a status is printed. -/
theorem statusOrAbsent_of_printed (hcode : (run .status id).returncode = 0)
    (hstdout : (run .status id).stdout = some value) :
    statusOrAbsent run id =
      if fieldIs "ID" id value then .ok (some value)
      else if !isCandidate id && fieldIs "ID" (candidate id) value then .ok none
      else
        match rowsOf value with
        | some rows => statusOfRows run id rows
        | none => .error (invalidResponse "Nomad returned an unexpected job") := by
  unfold statusOrAbsent
  dsimp only
  rw [if_pos hcode, hstdout]

/-- The object form of a registered job is the answer. -/
theorem statusOrAbsent_of_object (h : Resolves jobs run) (hjob : job ∈ jobs) (hid : job.id = id)
    (hobject : fieldIs "ID" id job.status = true) :
    statusOrAbsent run id = .ok (some job.status) := by
  subst hid
  obtain ⟨hcode, hstdout⟩ := h.exact .status job hjob
  rw [statusOrAbsent_of_printed hcode hstdout]
  exact if_pos hobject

theorem statusOrAbsent_of_registered (h : Resolves jobs run) (hjob : job ∈ jobs)
    (hid : job.id = id) :
    ∃ value, statusOrAbsent run id = .ok (some value) ∧ fieldIs "ID" id value = true := by
  subst hid
  obtain hobject | ⟨rows, rows', hvalue, hprojection, howner⟩ := status_cases job.status_id
  · exact ⟨_, statusOrAbsent_of_object h hjob rfl hobject, hobject⟩
  · obtain ⟨hcode, hstdout⟩ := h.exact .status job hjob
    have hvalue : job.printed .status = .arr rows := hvalue
    rw [statusOrAbsent_of_printed hcode hstdout, hvalue, if_neg (by exact Bool.false_ne_true),
      if_neg (by simp [fieldIs, field])]
    show ∃ value, statusOfRows run job.id rows = .ok (some value) ∧ _
    cases rows' with
    | nil =>
      rw [statusOfRows_nil hprojection, inspectedJob_of_registered h hjob rfl]
      exact ⟨_, rfl, fieldIs_reduced job.id "dead"⟩
    | cons row rows' => exact (statusOfRows_cons hprojection howner).1 rfl

/-- An object that is the status of a job has its ID. -/
theorem fieldIs_of_isObject {owner : String} (h : IsStatus owner value)
    (hobject : isObject value = true) : fieldIs "ID" owner value = true := by
  obtain hfield | ⟨rows, _, rfl, _⟩ := status_cases h
  · exact hfield
  · cases hobject

theorem overlooked_of_many (hmany : ∀ job, matching jobs id ≠ [job]) :
    overlooked jobs id = false := by
  unfold overlooked
  split
  · rename_i job hsole
    exact absurd hsole (hmany job)
  · exact Bool.and_false _

theorem overlooked_of_sole (hnone : registered jobs id = false) (hsole : matching jobs id = [job]) :
    overlooked jobs id = false ↔
      (isCandidate id = false ∧ job.id = candidate id) ∧ isEmptyProjection job.status = false := by
  rw [overlooked, hnone, hsole]
  show (isCandidate id || job.id != candidate id || isEmptyProjection job.status) = false ↔ _
  rw [Bool.or_eq_false_iff, Bool.or_eq_false_iff, bne_eq_false_iff_eq]

theorem statusOrAbsent_of_sole (h : Resolves jobs run) (hnone : registered jobs id = false)
    (hsole : matching jobs id = [job]) :
    statusOrAbsent run id = .ok none ↔
      (isCandidate id = false ∧ job.id = candidate id) ∧ isEmptyProjection job.status = false := by
  obtain ⟨hcode, hstdout⟩ := h.sole .status id job hnone hsole
  have hne := ne_of_matching hnone hsole
  rw [statusOrAbsent_of_printed hcode hstdout]
  obtain hobject | ⟨rows, rows', hvalue, hprojection, howner⟩ := status_cases job.status_id
  · have hempty : isEmptyProjection job.status = false := by
      cases hstatus : job.status with
      | arr rows =>
        rw [hstatus] at hobject
        cases hobject
      | _ => rfl
    have hid : ¬fieldIs "ID" id (job.printed .status) = true := mt (fieldIs_iff hobject id).mp hne
    have hrows : rowsOf (job.printed .status) = none := by
      cases hstatus : job.status with
      | arr rows =>
        rw [hstatus] at hobject
        cases hobject
      | _ =>
        show rowsOf job.status = none
        rw [hstatus]
        rfl
    rw [if_neg hid, hempty]
    by_cases hcandidate : isCandidate id = false ∧ job.id = candidate id
    · rw [if_pos]
      · exact ⟨fun _ => ⟨hcandidate, rfl⟩, fun _ => rfl⟩
      · rw [hcandidate.1, show fieldIs "ID" (candidate id) (job.printed .status) = true from
          (fieldIs_iff hobject _).mpr hcandidate.2]
        rfl
    · rw [if_neg, hrows]
      · exact ⟨fun heq => (nomatch heq), fun hc => absurd hc.1 hcandidate⟩
      · intro hboth
        rw [Bool.and_eq_true, Bool.not_eq_true'] at hboth
        exact hcandidate ⟨hboth.1, (fieldIs_iff hobject _).mp hboth.2⟩
  · have hstatus : job.printed .status = .arr rows := hvalue
    have hempty : isEmptyProjection job.status = rows'.isEmpty := by
      rw [hvalue, isEmptyProjection]
      show ((rowsOf (projection rows)).any List.isEmpty) = _
      rw [hprojection]
      rfl
    rw [hstatus, if_neg (by exact Bool.false_ne_true), if_neg (by simp [fieldIs, field]), hempty]
    show statusOfRows run id rows = .ok none ↔ _
    cases rows' with
    | nil =>
      rw [statusOfRows_nil hprojection]
      constructor
      · intro hanswer
        obtain ⟨-, hinspected⟩ | ⟨-, hinspected⟩ := inspectedJob_iff h hnone
        · rw [hinspected] at hanswer
          cases hanswer
        · rw [hinspected] at hanswer
          cases hanswer
      · intro hc
        cases hc.2
    | cons row rows' =>
      rw [(statusOfRows_cons hprojection howner).2 hne]
      by_cases hcandidate : isCandidate id = false ∧ job.id = candidate id
      · rw [if_pos hcandidate]
        exact ⟨fun _ => ⟨hcandidate, rfl⟩, fun _ => rfl⟩
      · rw [if_neg hcandidate]
        exact ⟨fun heq => (nomatch heq), fun hc => absurd hc.1 hcandidate⟩

theorem statusOrAbsent_of_hidden (h : Resolves jobs run) (hnone : registered jobs id = false)
    (hmany : ∀ job, matching jobs id ≠ [job]) : statusOrAbsent run id = .ok none := by
  obtain ⟨hcode, habsence⟩ := exactAbsence_of_resolves h .status hnone hmany
  have hne : (run .status id).returncode ≠ 0 := by omega
  unfold statusOrAbsent
  dsimp only
  rw [if_neg hne, if_neg]
  rintro (hother | hpresent)
  · exact hother hcode
  · rw [habsence] at hpresent
    cases hpresent

theorem statusExactly_iff (h : Resolves jobs run) :
    StatusExactly run jobs id ↔ overlooked jobs id = false := by
  cases hsome : registered jobs id with
  | true =>
    obtain ⟨job, hjob, hid⟩ := registered_eq_true.mp hsome
    constructor
    · intro _
      rw [overlooked, hsome]
      rfl
    · intro _
      refine ⟨fun _ => statusOrAbsent_of_registered h hjob hid, fun job hjob hid hobject => ?_,
        fun hnone => ?_⟩
      · subst hid
        exact statusOrAbsent_of_object h hjob rfl (fieldIs_of_isObject job.status_id hobject)
      · rw [hsome] at hnone
        cases hnone
  | false =>
    have hexact : StatusExactly run jobs id ↔ statusOrAbsent run id = .ok none := by
      refine ⟨fun hexact => hexact.absent hsome,
        fun hanswer => ⟨fun htrue => ?_, fun job hjob hid => ?_, fun _ => hanswer⟩⟩
      · rw [hsome] at htrue
        cases htrue
      · exact absurd hid (registered_eq_false.mp hsome job hjob)
    rw [hexact]
    by_cases hmany : ∀ job, matching jobs id ≠ [job]
    · exact ⟨fun _ => overlooked_of_many hmany, fun _ => statusOrAbsent_of_hidden h hsome hmany⟩
    · obtain ⟨job, hsole⟩ := not_forall_not.mp hmany
      rw [statusOrAbsent_of_sole h hsome hsole, overlooked_of_sole hsome hsole]

/-! ### The two jobs of an application -/

/-- What `_inspected_job` answers, when nothing hides the job. -/
theorem isSome_inspectedJob (h : Resolves jobs run) (hfree : shadowed jobs id = false) :
    ∃ inspected, inspectedJob run id = .ok inspected ∧ inspected.isSome = registered jobs id := by
  cases hsome : registered jobs id with
  | true =>
    obtain ⟨job, hjob, hid⟩ := registered_eq_true.mp hsome
    exact ⟨_, inspectedJob_of_registered h hjob hid, rfl⟩
  | false =>
    obtain ⟨-, hanswer⟩ | ⟨hshadowed, -⟩ := inspectedJob_iff h hsome
    · exact ⟨_, hanswer, rfl⟩
    · rw [hfree] at hshadowed
      cases hshadowed

theorem registered_of_shadowed (hshadowed : shadowed jobs id = true) : registered jobs id = false := by
  cases hsome : registered jobs id with
  | false => rfl
  | true =>
    rw [shadowed_of_registered hsome] at hshadowed
    cases hshadowed

/-- When a job is hidden, its inspection raises. -/
theorem inspectedJob_of_shadowed (h : Resolves jobs run) (hshadowed : shadowed jobs id = true) :
    inspectedJob run id = .error (invalidResponse "Nomad returned an unexpected job") := by
  obtain ⟨hfree, -⟩ | ⟨-, hanswer⟩ := inspectedJob_iff h (registered_of_shadowed hshadowed)
  · rw [hshadowed] at hfree
    cases hfree
  · exact hanswer

variable {slug : String}

/-- With both answers, the end of `_only_job_id` decides. -/
theorem onlyJobId_of_free (h : Resolves jobs run) (hstable : shadowed jobs slug = false)
    (hstaged : shadowed jobs (candidate slug) = false) :
    onlyJobId run slug = onlyOf slug (registered jobs slug) (registered jobs (candidate slug)) := by
  obtain ⟨stable, hinspected, hisSome⟩ := isSome_inspectedJob h hstable
  obtain ⟨staged, hinspected', hisSome'⟩ := isSome_inspectedJob h hstaged
  rw [onlyJobId, hinspected, hinspected', ← hisSome, ← hisSome']
  rfl

/-- When one of the two jobs is hidden, `_only_job_id` raises. -/
theorem onlyJobId_of_shadowed (h : Resolves jobs run)
    (hhidden : shadowed jobs slug = true ∨ shadowed jobs (candidate slug) = true) :
    onlyJobId run slug = .error (invalidResponse "Nomad returned an unexpected job") := by
  cases hstable : shadowed jobs slug with
  | true =>
    rw [onlyJobId, inspectedJob_of_shadowed h hstable]
    rfl
  | false =>
    have hstaged : shadowed jobs (candidate slug) = true :=
      hhidden.resolve_left (by rw [hstable]; exact Bool.false_ne_true)
    obtain ⟨stable, hinspected, -⟩ := isSome_inspectedJob h hstable
    rw [onlyJobId, hinspected, inspectedJob_of_shadowed h hstaged]
    rfl

/-- An answer that is exact is not the error of a hidden job. -/
theorem OnlyExactly.ne_invalidResponse (hexact : OnlyExactly run jobs slug) :
    onlyJobId run slug ≠ .error (invalidResponse "Nomad returned an unexpected job") := by
  intro hanswer
  cases hstable : registered jobs slug <;> cases hstaged : registered jobs (candidate slug)
  · rw [hexact.neither hstable hstaged] at hanswer
    cases hanswer
  · rw [hexact.staged hstable hstaged] at hanswer
    cases hanswer
  · rw [hexact.stable hstable hstaged] at hanswer
    cases hanswer
  · rw [hexact.both hstable hstaged] at hanswer
    simp [invalidResponse] at hanswer

theorem onlyExactly_iff (h : Resolves jobs run) : OnlyExactly run jobs slug ↔
      shadowed jobs slug = false ∧ shadowed jobs (candidate slug) = false := by
  constructor
  · intro hexact
    refine ⟨?_, ?_⟩
    · exact Bool.eq_false_iff.mpr fun hhidden =>
        hexact.ne_invalidResponse (onlyJobId_of_shadowed h (.inl hhidden))
    · exact Bool.eq_false_iff.mpr fun hhidden =>
        hexact.ne_invalidResponse (onlyJobId_of_shadowed h (.inr hhidden))
  · rintro ⟨hstable, hstaged⟩
    have hanswer := onlyJobId_of_free h hstable hstaged
    refine ⟨fun hs hc => ?_, fun hs hc => ?_, fun hs hc => ?_, fun hs hc => ?_⟩ <;>
      rw [hanswer, hs, hc] <;> rfl

/-- **Job absence.**  The three callers tell exactly which of the application's own jobs are there if
and only if no other job hides that one is not.  A hidden job is always the same accident: the ID is
not registered, and one single job begins with it, so that the command prints that job in its place.
The candidate of the ID is the one such job that the callers know; it hides nothing, except from
`_status_or_absent` when its status is an array without allocations. -/
theorem exact_iff (h : Resolves jobs run) (id : String) :
    (InspectsExactly run jobs id ∧ StatusExactly run jobs id ∧ OnlyExactly run jobs id) ↔
      shadowed jobs id = false ∧ overlooked jobs id = false ∧
        shadowed jobs (candidate id) = false := by
  rw [inspectsExactly_iff h, statusExactly_iff h, onlyExactly_iff h]
  constructor
  · rintro ⟨hfree, hstatus, -, hcandidate⟩
    exact ⟨hfree, hstatus, hcandidate⟩
  · rintro ⟨hfree, hstatus, hcandidate⟩
    exact ⟨hfree, hstatus, hfree, hcandidate⟩

end Exactness

/-! ## The command of Nomad 2 -/

section Nomad

/-- The diagnostic for an ID that nothing begins with. -/
def noJobLine (id : String) : List Char :=
  "No job".toList ++ "(s) with prefix or ID ".toList ++ '"' :: id.toList ++ '"' :: " found".toList

/-- The columns of a row. -/
def sampleColumns (_ : String) : List Char :=
  " service  50        running  2026-10-23T03:56:12Z".toList

/-- The listing of some jobs. -/
def listingText (id : String) (jobs : List Job) : List Char :=
  [] ++ ("Prefix ".toList ++ '"' :: (id.toList ++ '"' ::
    (" matched multiple jobs".toList ++ ("\n\n".toList ++ ("ID".toList ++
    ("               ".toList ++ ("Type".toList ++ ("     ".toList ++ ("Priority".toList ++
    ("  ".toList ++ ("Status".toList ++ ("   ".toList ++ ("Submit Date".toList ++
    ("\n".toList ++ jobs.flatMap (rowText sampleColumns)))))))))))))))

/-- The command, with the registered jobs. -/
def nomad (jobs : List Job) : Runner := fun verb id =>
  match jobs.find? fun job => job.id == id with
  | some job => ⟨0, some (job.printed verb), some []⟩
  | none =>
    match matching jobs id with
    | [] => ⟨1, none, some (noJobLine id ++ ['\n'])⟩
    | [job] => ⟨0, some (job.printed verb), some []⟩
    | several => ⟨1, none, some (listingText id several)⟩

theorem strip_append {text spaces : List Char} (hhead : ∀ c ∈ text.head?, isSpace c = false)
    (hlast : ∀ c ∈ text.getLast?, isSpace c = false) (hne : text ≠ [])
    (hspaces : ∀ c ∈ spaces, isSpace c = true) : strip (text ++ spaces) = text := by
  have hfront : (text ++ spaces).dropWhile isSpace = text ++ spaces := by
    refine (dropWhile_spaces (fun c hc => absurd hc List.not_mem_nil) fun c hc => hhead c ?_).1
    cases text with
    | nil => exact absurd rfl hne
    | cons d text => exact hc
  have hback : (spaces.reverse ++ text.reverse).dropWhile isSpace = text.reverse := by
    refine (dropWhile_spaces (fun c hc => hspaces c (List.mem_reverse.mp hc)) fun c hc => ?_).1
    rw [List.head?_reverse] at hc
    exact hlast c hc
  rw [strip, hfront, List.reverse_append, hback, List.reverse_reverse]

/-- A diagnostic of this shape is between words. -/
theorem strip_diagnostic (middle : List Char) :
    strip ("No job".toList ++ middle ++ '"' :: " found".toList ++ ['\n']) =
      "No job".toList ++ middle ++ '"' :: " found".toList := by
  have hfirst : "No job".toList = 'N' :: "o job".toList := by decide
  have hlast : ('"' :: " found".toList).getLast? = some 'd' := by decide
  refine strip_append (fun c hc => ?_) (fun c hc => ?_) (fun hnil => ?_) (by decide)
  · rw [hfirst, List.cons_append, List.cons_append, List.head?_cons] at hc
    rw [← Option.some.inj hc]
    decide
  · rw [List.getLast?_append, hlast, Option.some_or] at hc
    rw [← Option.some.inj hc]
    decide
  · rw [hfirst, List.cons_append, List.cons_append] at hnil
    exact List.cons_ne_nil _ _ hnil

theorem isNoJob_noJobLine (id : String) : isNoJob id.toList (noJobLine id ++ ['\n']) = true := by
  have hassoc : ∀ a b c d : List Char, a ++ b ++ c ++ d = a ++ (b ++ c) ++ d := by
    intro a b c d
    rw [List.append_assoc a b c]
  have hline : noJobLine id = "No job".toList ++ ("(s) with prefix or ID ".toList ++
      '"' :: id.toList) ++ '"' :: " found".toList := hassoc _ _ _ _
  have hstrip : strip (noJobLine id ++ ['\n']) = noJobLine id := by
    rw [hline]
    exact strip_diagnostic _
  have hequal : (strip (noJobLine id ++ ['\n']) == noJobLine id) = true := beq_iff_eq.mpr hstrip
  refine List.any_eq_true.mpr ⟨_, List.mem_cons_self, List.any_eq_true.mpr ⟨'"', by decide, ?_⟩⟩
  exact List.any_eq_true.mpr ⟨'"', by decide, hequal⟩

theorem isListing_listingText (id : String) (jobs : List Job) :
    IsListing id jobs (listingText id jobs) := by
  refine .mk (fun c hc => absurd hc List.not_mem_nil) (by decide) (by decide) ?_ ?_ ?_ ?_ ?_ ?_
    fun job _ => ⟨?_, ?_⟩
  · exact ⟨by decide, by decide⟩
  · exact ⟨by decide, by decide⟩
  · exact ⟨by decide, by decide⟩
  · exact ⟨by decide, by decide⟩
  · exact ⟨by decide, by decide⟩
  · exact ⟨by decide, by decide⟩
  · show ∀ c ∈ sampleColumns "", isLineBreak c = false
    decide
  · show ∀ c ∈ (sampleColumns "").head?, isSpace c = true
    decide

/-- The command follows the rule. -/
theorem resolves_nomad {jobs : List Job} (h : (jobs.map Job.id).Nodup) :
    Resolves jobs (nomad jobs) := by
  have hnone : ∀ id, registered jobs id = false → jobs.find? (fun job => job.id == id) = none := by
    intro id hid
    refine List.find?_eq_none.mpr fun job hjob heq => ?_
    exact registered_eq_false.mp hid job hjob (eq_of_beq heq)
  refine ⟨fun verb job hjob => ?_, fun verb id job hid hsole => ?_, fun verb id hid hmany => ?_,
    fun verb id hempty => ?_⟩
  · have hfind : jobs.find? (fun j => j.id == job.id) = some job := by
      cases hfound : jobs.find? fun j => j.id == job.id with
      | none => exact absurd (beq_iff_eq.mpr rfl) (List.find?_eq_none.mp hfound job hjob)
      | some j =>
        have hid : j.id = job.id := by simpa using List.find?_some hfound
        rw [List.inj_on_of_nodup_map h (List.mem_of_find?_eq_some hfound) hjob hid]
    rw [nomad, hfind]
    exact ⟨rfl, rfl⟩
  · rw [nomad, hnone id hid, hsole]
    exact ⟨rfl, rfl⟩
  · rw [nomad, hnone id hid]
    cases hmatching : matching jobs id with
    | nil =>
      rw [hmatching] at hmany
      cases hmany
    | cons job rest =>
      cases rest with
      | nil =>
        rw [hmatching] at hmany
        simp at hmany
      | cons job' rest => exact ⟨rfl, _, rfl, isListing_listingText id _⟩
  · have hid : registered jobs id = false := by
      refine registered_eq_false.mpr fun job hjob heq => ?_
      have hmem : job ∈ matching jobs id := by
        refine List.mem_filter.mpr ⟨hjob, ?_⟩
        rw [heq]
        exact List.isPrefixOf_iff_prefix.mpr (List.prefix_refl _)
      rw [hempty] at hmem
      cases hmem
    rw [nomad, hnone id hid, hempty]
    exact ⟨rfl, _, rfl, isNoJob_noJobLine id⟩

/-- A job with one word as its ID, whose status is printed as a value. -/
def sampleJob (id : String) (status : Json) (hne : id.toList ≠ [])
    (hword : ∀ c ∈ id.toList, isSpace c = false) (hstatus : IsStatus id status) : Job where
  id := id
  inspection := .obj [("ID", .str id)]
  status := status
  id_ne := hne
  id_word := hword
  inspection_id := beq_self_eq_true id
  status_id := hstatus

/-- The job of another application, whose name begins with `kumba`. -/
def kumbakumba : Job :=
  sampleJob "kumbakumba" (.obj [("ID", .str "kumbakumba")]) (by decide) (by decide)
    (.object (by decide))

/-- A candidate that was stopped and has no allocations left. -/
def stoppedCandidate : Job :=
  sampleJob "kumba-candidate" (.arr []) (by decide) (by decide)
    (.rows fun _ hrow => absurd hrow List.not_mem_nil)

theorem exact_iff_both :
    InspectsExactly (nomad [kumbakumba, stoppedCandidate]) [kumbakumba, stoppedCandidate] "kumba" ∧
      StatusExactly (nomad [kumbakumba, stoppedCandidate]) [kumbakumba, stoppedCandidate] "kumba" ∧
      OnlyExactly (nomad [kumbakumba, stoppedCandidate]) [kumbakumba, stoppedCandidate] "kumba" := by
  have h : Resolves [kumbakumba, stoppedCandidate] (nomad [kumbakumba, stoppedCandidate]) :=
    resolves_nomad (by decide)
  exact (exact_iff h "kumba").mpr ⟨by decide, by decide, by decide⟩

/-- With the job of the other application alone, none of the three callers answers for `kumba`; with
the stopped candidate alone, `_status_or_absent` does not. -/
theorem hidden_absence :
    (Resolves [kumbakumba] (nomad [kumbakumba]) ∧ registered [kumbakumba] "kumba" = false ∧
      ¬InspectsExactly (nomad [kumbakumba]) [kumbakumba] "kumba" ∧
      ¬StatusExactly (nomad [kumbakumba]) [kumbakumba] "kumba" ∧
      ¬OnlyExactly (nomad [kumbakumba]) [kumbakumba] "kumba") ∧
    InspectsExactly (nomad [stoppedCandidate]) [stoppedCandidate] "kumba" ∧
      ¬StatusExactly (nomad [stoppedCandidate]) [stoppedCandidate] "kumba" := by
  have h : Resolves [kumbakumba] (nomad [kumbakumba]) := resolves_nomad (by decide)
  have h' : Resolves [stoppedCandidate] (nomad [stoppedCandidate]) := resolves_nomad (by decide)
  refine ⟨⟨h, by decide, ?_, ?_, ?_⟩, (inspectsExactly_iff h').mpr (by decide), ?_⟩
  · rw [inspectsExactly_iff h]
    decide
  · rw [statusExactly_iff h]
    decide
  · rw [onlyExactly_iff h]
    decide
  · rw [statusExactly_iff h']
    decide

end Nomad

end JobAbsence
end Helper
end OpenstackPlatform
