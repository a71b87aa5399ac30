import OpenstackPlatform.Helper.NomadJobs
import OpenstackPlatform.Library.TextLines
import OpenstackPlatform.Library.Utf8Replace

/-!
# Following a build log

`_read_build_log` of `production.py` answers one read of a log that a build may still write to: its
last lines, or one page from a byte offset.  The log only grows, also between the size check and the
read of one call.  Each page is decoded on its own, so a character that lies over the end of a page
or over the end of the log as it was is replaced in two parts; and a read of the last lines names
the checked size as the next offset, whatever was read.

* `Request`, `Log`, `StateFile`, `Reply`, `readBuildLog`: the code.
* `Turn`, `Follower`, `takeTurn`, `follow`: reads that each start at the offset the last one named.
* `IsClean`: no read starts within a character.
* `GivesPage`, `GivesTail`: what one read should give of the bytes of the log.
* `follow_reads`: the texts against the bytes that were read.
* `buildLog_follow`: when nothing is lost and nothing is repeated.
-/

namespace OpenstackPlatform

open Library Library.Utf8Replace

namespace Helper

namespace BuildLogs

/-! ## The code -/

/-- The arguments of `app.build.logs`. -/
structure Request where
  buildId : String
  slug : String
  lines : Int
  offset : Option Int

/-- What `lstat` and `read` tell of the log. -/
structure Log where
  isRegular : Bool
  mode : BitVec 12
  content : List UInt8

/-- What `lstat` and `read_text` tell of the file with the state of the build. -/
structure StateFile where
  isRegular : Bool
  mode : BitVec 12
  text : String

structure Reply where
  buildId : String
  found : Bool
  state : String
  text : Text
  size : Nat
  nextOffset : Option Nat
  deriving DecidableEq

/-- `524_288` -/
def pageBytes : Nat := 524288

/-- `_positive_int` -/
def positiveInt (value : Int) (field : String) (maximum : Nat) : Except Error Unit :=
  require (decide (1 ≤ value ∧ value ≤ maximum))
    (.helperAction "INVALID_ARGS" s!"{field} is invalid")

/-- `not stat.S_ISREG(st_mode) or stat.S_IMODE(st_mode) & 0o077` -/
def isPrivateFile (isRegular : Bool) (mode : BitVec 12) : Bool := isRegular && mode &&& 0o077 == 0

/-- The state that the build's file tells. -/
def buildState : Option StateFile → Except Error String
  | none => .ok "unknown"
  | some file => do
    require (isPrivateFile file.isRegular file.mode)
      (.helperAction "INVALID_STATE" "build log state is not a private direct file")
    let state := String.ofList (Validation.strip file.text.toList)
    if ["running", "complete", "failed"].contains state then .ok state else .ok "unknown"

/-- The last lines of the log, each with its end. -/
def tailText (lines : Nat) (content : List UInt8) : Text :=
  let payload := content.drop (content.length - pageBytes)
  let text := List.intercalate [10]
    (Text.lastLines lines (Text.splitLines (decodeReplace payload)))
  if text ≠ [] then text ++ [10] else text

/-- The bytes of one page. -/
def page (start : Nat) (content : List UInt8) : List UInt8 := (content.drop start).take pageBytes

/-- `_read_build_log`.  The log is as `lstat` finds it; `arriving` is what the build appends to it
before it is read. -/
def readBuildLog (request : Request) (log : Option Log) (arriving : List UInt8)
    (stateFile : Option StateFile) : Except Error Reply := do
  checkUuid "build ID" request.buildId
  checkSlug request.slug
  positiveInt request.lines "line count" 2000
  require (request.offset.all fun offset => decide (0 ≤ offset))
    (.helperAction "INVALID_ARGS" "build log offset is invalid")
  match log with
  | none => pure ⟨request.buildId, false, "unknown", [], 0, none⟩
  | some log =>
    require (isPrivateFile log.isRegular log.mode)
      (.helperAction "INVALID_STATE" "build log path is not a private direct file")
    let size := log.content.length
    let content := log.content ++ arriving
    let state ← buildState stateFile
    match request.offset with
    | none =>
      pure ⟨request.buildId, true, state, tailText request.lines.toNat content, size, some size⟩
    | some offset =>
      let start := min offset.toNat size
      let payload := page start content
      pure ⟨request.buildId, true, state, decodeReplace payload, size,
        some (start + payload.length)⟩

/-! ## Following -/

/-- One read of a follower: what was appended before it, what is appended during it, and the state
file that it finds. -/
structure Turn where
  before : List UInt8
  during : List UInt8
  stateFile : Option StateFile

/-- The log, and the follower's offset and texts. -/
structure Follower where
  content : List UInt8
  offset : Nat
  texts : List Text
  deriving DecidableEq

/-- A read at the offset that the last one named. -/
def takeTurn (buildId slug : String) (lines : Int) (mode : BitVec 12) (f : Follower) (turn : Turn) :
    Except Error Follower := do
  let reply ← readBuildLog ⟨buildId, slug, lines, some f.offset⟩
    (some ⟨true, mode, f.content ++ turn.before⟩) turn.during turn.stateFile
  pure ⟨f.content ++ turn.before ++ turn.during, reply.nextOffset.getD 0, f.texts ++ [reply.text]⟩

/-- Reads from the start of the log. -/
def follow (buildId slug : String) (lines : Int) (mode : BitVec 12) (content : List UInt8)
    (turns : List Turn) : Except Error Follower :=
  turns.foldlM (takeTurn buildId slug lines mode) ⟨content, 0, []⟩

/-- The bytes at the offset do not go on with a character that has begun before it. -/
def IsClean (f : Follower) (turn : Turn) : Prop :=
  continues (pending (f.content.take f.offset))
    ((f.content ++ turn.before ++ turn.during).drop f.offset) = false

/-- No read of the turns starts within a character. -/
def AllClean (buildId slug : String) (lines : Int) (mode : BitVec 12) : Follower → List Turn → Prop
  | _, [] => True
  | f, turn :: turns => IsClean f turn ∧
      ∀ f', takeTurn buildId slug lines mode f turn = .ok f' →
        AllClean buildId slug lines mode f' turns

/-! ## What a read should give -/

/-- A page: the bytes from a place of the log on, as many as there are up to the size of a page.  The
text is what they decode to, and the next offset is where they end. -/
def GivesPage (start : Nat) (content : List UInt8) (reply : Reply) : Prop :=
  ∃ before payload after, content = before ++ (payload ++ after) ∧ before.length = start ∧
    payload.length = min 524288 (payload ++ after).length ∧
    reply.text = decodeReplace payload ∧ reply.nextOffset = some (start + payload.length)

/-- The last lines of the last page of the log, each with its end.  A single empty line is no text. -/
def GivesTail (lines : Nat) (content : List UInt8) (text : Text) : Prop :=
  ∃ before payload earlier shown, content = before ++ payload ∧
    payload.length = min 524288 content.length ∧
    Text.splitLines (decodeReplace payload) = earlier ++ shown ∧
    shown.length = min lines (earlier ++ shown).length ∧
    text = if shown = [[]] then [] else shown.flatMap fun line => line ++ [10]

/-- The arguments that a read accepts, of a log that only its owner can open. -/
structure Permitted (buildId slug : String) (lines : Int) (mode : BitVec 12) : Prop where
  buildId : Validation.isUuid buildId = true
  slug : Validation.isSlug slug = true
  lines : 1 ≤ lines ∧ lines ≤ 2000
  mode : mode &&& 0o077 = 0

/-! ## One read -/

variable {arriving : List UInt8} {stateFile : Option StateFile} {reply : Reply}

/-- The reply to a read at an offset. -/
theorem readBuildLog_page {request : Request} {log : Log}
     {offset : Int} (hoffset : request.offset = some offset)
    (h : readBuildLog request (some log) arriving stateFile = .ok reply) :
    reply.text = decodeReplace
        (page (min offset.toNat log.content.length) (log.content ++ arriving)) ∧
      reply.nextOffset = some (min offset.toNat log.content.length +
        (page (min offset.toNat log.content.length) (log.content ++ arriving)).length) := by
  rw [readBuildLog] at h
  obtain ⟨_, _, h⟩ := Checks.bind_ok_iff.mp h
  obtain ⟨_, _, h⟩ := Checks.bind_ok_iff.mp h
  obtain ⟨_, _, h⟩ := Checks.bind_ok_iff.mp h
  obtain ⟨_, _, h⟩ := Checks.bind_ok_iff.mp h
  obtain ⟨_, _, h⟩ := Checks.bind_ok_iff.mp h
  obtain ⟨state, _, h⟩ := Checks.bind_ok_iff.mp h
  rw [hoffset] at h
  cases h
  exact ⟨rfl, rfl⟩

/-- A read that is answered asks for a line. -/
theorem lines_pos_of_readBuildLog {request : Request} {log : Log}
    (h : readBuildLog request (some log) arriving stateFile = .ok reply) : 0 < request.lines := by
  rw [readBuildLog] at h
  obtain ⟨_, _, h⟩ := Checks.bind_ok_iff.mp h
  obtain ⟨_, _, h⟩ := Checks.bind_ok_iff.mp h
  obtain ⟨_, hlines, _⟩ := Checks.bind_ok_iff.mp h
  rw [positiveInt, require_eq_ok, decide_eq_true_eq] at hlines
  omega

/-- The reply to a read of the last lines. -/
theorem readBuildLog_tail {request : Request} {log : Log}
     (hoffset : request.offset = none)
    (h : readBuildLog request (some log) arriving stateFile = .ok reply) :
    reply.text = tailText request.lines.toNat (log.content ++ arriving) ∧
      reply.nextOffset = some log.content.length := by
  rw [readBuildLog] at h
  obtain ⟨_, _, h⟩ := Checks.bind_ok_iff.mp h
  obtain ⟨_, _, h⟩ := Checks.bind_ok_iff.mp h
  obtain ⟨_, _, h⟩ := Checks.bind_ok_iff.mp h
  obtain ⟨_, _, h⟩ := Checks.bind_ok_iff.mp h
  obtain ⟨_, _, h⟩ := Checks.bind_ok_iff.mp h
  obtain ⟨state, _, h⟩ := Checks.bind_ok_iff.mp h
  rw [hoffset] at h
  cases h
  exact ⟨rfl, rfl⟩

/-- A log that is there is read. -/
theorem readBuildLog_answers {buildId slug : String} {lines : Int} {mode : BitVec 12}
    (h : Permitted buildId slug lines mode) {offset : Option Int}
    (hoffset : ∀ n ∈ offset, 0 ≤ n)
    (hstate : ∀ file ∈ stateFile, isPrivateFile file.isRegular file.mode = true)
    (content arriving : List UInt8) :
    ∃ reply, readBuildLog ⟨buildId, slug, lines, offset⟩ (some ⟨true, mode, content⟩) arriving
      stateFile = .ok reply := by
  have hprivate : isPrivateFile true mode = true := by
    rw [isPrivateFile, h.mode]
    rfl
  have hbuildState : ∃ state, buildState stateFile = .ok state := by
    cases stateFile with
    | none => exact ⟨_, rfl⟩
    | some file =>
      rw [buildState, hstate file rfl]
      by_cases hknown : ["running", "complete", "failed"].contains
          (String.ofList (Validation.strip file.text.toList)) = true
      · exact ⟨_, if_pos hknown⟩
      · exact ⟨_, if_neg hknown⟩
  obtain ⟨state, hbuildState⟩ := hbuildState
  have hall : (offset.all fun n => decide (0 ≤ n)) = true :=
    (Option.all_eq_true _ _).mpr fun n hn => decide_eq_true (hoffset n hn)
  rw [readBuildLog, checkUuid, h.buildId, checkSlug, h.slug, positiveInt,
    decide_eq_true (p := 1 ≤ lines ∧ lines ≤ (2000 : Nat)) h.lines, hall]
  dsimp only [require, bind, Except.bind]
  rw [hprivate, hbuildState]
  cases offset with
  | none => exact ⟨_, rfl⟩
  | some n => exact ⟨_, rfl⟩

/-- A page lies in the log. -/
theorem givesPage_page {start : Nat} {content : List UInt8} (hstart : start ≤ content.length)
    (htext : reply.text = decodeReplace (page start content))
    (hnext : reply.nextOffset = some (start + (page start content).length)) :
    GivesPage start content reply := by
  refine ⟨content.take start, page start content, (content.drop start).drop pageBytes, ?_, ?_, ?_,
    htext, hnext⟩
  · rw [page, List.take_append_drop, List.take_append_drop]
  · rw [List.length_take]
    exact Nat.min_eq_left hstart
  · rw [page, List.take_append_drop, List.length_take]
    rfl

/-- Lines with their ends, as they are joined. -/
theorem intercalate_newline {shown : List Text} (h : shown ≠ []) :
    List.intercalate [10] shown ++ [10] = shown.flatMap fun line => line ++ [10] := by
  induction shown with
  | nil => exact absurd rfl h
  | cons line rest ih =>
    cases rest with
    | nil => rw [intercalate_singleton, List.flatMap_cons, List.flatMap_nil, List.append_nil]
    | cons next rest =>
      rw [intercalate_cons_cons, List.flatMap_cons, ← ih (List.cons_ne_nil _ _)]
      simp only [List.append_assoc, List.cons_append, List.nil_append]

theorem intercalate_newline_eq_nil {shown : List Text} :
    List.intercalate [10] shown = [] ↔ shown = [] ∨ shown = [[]] := by
  cases shown with
  | nil => exact iff_of_true rfl (.inl rfl)
  | cons line rest =>
    cases rest with
    | nil =>
      rw [intercalate_singleton]
      simp only [List.cons_ne_nil, List.cons.injEq, and_true, false_or]
    | cons next rest =>
      rw [intercalate_cons_cons]
      simp only [List.append_eq_nil_iff, List.cons_ne_nil, and_false, List.cons.injEq, or_self]

/-- The text of a read of the last lines. -/
theorem givesTail_tailText {lines : Nat} (hlines : 0 < lines) (content : List UInt8) :
    GivesTail lines content (tailText lines content) := by
  obtain ⟨payload, hpayload⟩ : ∃ payload, payload = content.drop (content.length - pageBytes) :=
    ⟨_, rfl⟩
  obtain ⟨all, hall⟩ : ∃ all, all = Text.splitLines (decodeReplace payload) := ⟨_, rfl⟩
  refine ⟨content.take (content.length - pageBytes), payload, all.take (all.length - lines),
    all.drop (all.length - lines), ?_, ?_, ?_, ?_, ?_⟩
  · rw [hpayload, List.take_append_drop]
  · rw [hpayload, List.length_drop, pageBytes]
    omega
  · rw [List.take_append_drop, hall]
  · rw [List.take_append_drop, List.length_drop]
    omega
  · have htext : tailText lines content =
        if List.intercalate [10] (all.drop (all.length - lines)) ≠ [] then
          List.intercalate [10] (all.drop (all.length - lines)) ++ [10]
        else List.intercalate [10] (all.drop (all.length - lines)) := by
      rw [tailText, ← hpayload, ← hall, Text.lastLines, if_neg (Nat.pos_iff_ne_zero.mp hlines)]
    rw [htext]
    by_cases hnil : List.intercalate [10] (all.drop (all.length - lines)) = []
    · rw [if_neg (not_not.mpr hnil), hnil]
      obtain hempty | hempty := intercalate_newline_eq_nil.mp hnil
      · rw [hempty, if_neg (List.cons_ne_nil _ _).symm]
        rfl
      · rw [hempty, if_pos rfl]
    · rw [if_pos hnil]
      have hne := mt intercalate_newline_eq_nil.mpr hnil
      rw [not_or] at hne
      rw [if_neg hne.2, intercalate_newline hne.1]

/-- What one turn does. -/
theorem takeTurn_ok {buildId slug : String} {lines : Int} {mode : BitVec 12} {f f' : Follower}
    {turn : Turn} (hoffset : f.offset ≤ f.content.length)
    (h : takeTurn buildId slug lines mode f turn = .ok f') :
    f' = ⟨f.content ++ turn.before ++ turn.during,
      f.offset + (page f.offset (f.content ++ turn.before ++ turn.during)).length,
      f.texts ++ [decodeReplace (page f.offset (f.content ++ turn.before ++ turn.during))]⟩ := by
  rw [takeTurn] at h
  obtain ⟨reply, hreply, h⟩ := Checks.bind_ok_iff.mp h
  obtain ⟨htext, hnext⟩ := readBuildLog_page rfl hreply
  have hstart : min (f.offset : Int).toNat (f.content ++ turn.before).length = f.offset := by
    rw [Int.toNat_natCast, List.length_append]
    omega
  rw [hstart] at htext hnext
  rw [← Except.ok.inj h, htext, hnext, Option.getD_some]

/-- What has been read grows by the page. -/
theorem take_page (offset : Nat) (content : List UInt8) :
    content.take (offset + (page offset content).length) =
      content.take offset ++ page offset content := by
  rw [List.take_add, page, List.length_take, List.length_drop]
  congr 1
  rw [← List.take_take, List.take_of_length_le (Nat.le_of_eq List.length_drop)]

/-- A page goes on with a character as the log does. -/
theorem continues_page (state : Option Begun) (offset : Nat) (content : List UInt8) :
    continues state (page offset content) = continues state (content.drop offset) := by
  rw [page, pageBytes]
  cases state with
  | none => rfl
  | some begun =>
    cases content.drop offset with
    | nil => rfl
    | cons b rest => rfl

theorem length_page_le (offset : Nat) (content : List UInt8) :
    (page offset content).length ≤ content.length - offset := by
  rw [page, List.length_take, List.length_drop]
  exact Nat.min_le_right _ _

/-! ## All reads -/

/-- Texts with one more part are what all bytes decode to when they were before and the part does
not go on with a character. -/
theorem append_decodeReplace_iff {text : Text} {x y : List UInt8}
    (hlength : (decodeReplace x).length ≤ text.length) :
    text ++ decodeReplace y = decodeReplace (x ++ y) ↔
      text = decodeReplace x ∧ continues (pending x) y = false := by
  by_cases hclean : continues (pending x) y = false
  · rw [decodeReplace_append hclean, List.append_left_inj]
    exact ⟨fun h => ⟨h, hclean⟩, fun h => h.1⟩
  · have hless := (length_decodeReplace_append x y).2 (Bool.not_eq_false _ ▸ hclean)
    constructor
    · intro h
      have := congrArg List.length h
      rw [List.length_append] at this
      omega
    · exact fun h => absurd h.2 hclean

/-- After any reads, the texts are at least as long as what was read decodes to; they are what it
decodes to when they were before and no read started within a character. -/
theorem follow_reads {buildId slug : String} {lines : Int} {mode : BitVec 12} {turns : List Turn}
    {f f' : Follower} (hoffset : f.offset ≤ f.content.length)
    (hlength : (decodeReplace (f.content.take f.offset)).length ≤ f.texts.flatten.length)
    (h : turns.foldlM (takeTurn buildId slug lines mode) f = .ok f') :
    f'.texts.flatten = decodeReplace (f'.content.take f'.offset) ↔
      f.texts.flatten = decodeReplace (f.content.take f.offset) ∧
        AllClean buildId slug lines mode f turns := by
  induction turns generalizing f with
  | nil =>
    cases h
    exact ⟨fun heq => ⟨heq, trivial⟩, fun heq => heq.1⟩
  | cons turn turns ih =>
    rw [List.foldlM_cons] at h
    obtain ⟨f₁, hturn, h⟩ := Checks.bind_ok_iff.mp h
    have hf₁ := takeTurn_ok hoffset hturn
    have hgrown : f.offset ≤ (f.content ++ turn.before ++ turn.during).length := by
      rw [List.length_append, List.length_append]
      omega
    have hread : (f.content ++ turn.before ++ turn.during).take f.offset =
        f.content.take f.offset := by
      rw [List.append_assoc, List.take_append_of_le_length hoffset]
    have hpage := length_page_le f.offset (f.content ++ turn.before ++ turn.during)
    have hwhole : f₁.content.take f₁.offset = f.content.take f.offset ++
        page f.offset (f.content ++ turn.before ++ turn.during) := by
      rw [hf₁, take_page, hread]
    have htexts : f₁.texts.flatten = f.texts.flatten ++
        decodeReplace (page f.offset (f.content ++ turn.before ++ turn.during)) := by
      rw [hf₁, List.flatten_append, List.flatten_singleton]
    have hoffset₁ : f₁.offset ≤ f₁.content.length := by
      rw [hf₁]
      dsimp only
      omega
    have hlength₁ : (decodeReplace (f₁.content.take f₁.offset)).length ≤
        f₁.texts.flatten.length := by
      have := (length_decodeReplace_append (f.content.take f.offset)
        (page f.offset (f.content ++ turn.before ++ turn.during))).1
      rw [hwhole, htexts, List.length_append]
      omega
    rw [ih hoffset₁ hlength₁ h, hwhole, htexts, append_decodeReplace_iff hlength, AllClean, IsClean,
      continues_page, and_assoc]
    refine and_congr_right fun _ => and_congr_right fun _ => ⟨?_, fun hall => hall f₁ hturn⟩
    intro hclean f₂ hf₂
    rwa [← Except.ok.inj (hturn.symm.trans hf₂)]

/-- **Following a build log.**  The texts of reads from the start of a log are what the bytes decode to
exactly when no read starts within a character: each page is decoded on its own, so that a character
over its end is replaced in pieces, and nothing else is lost or repeated.  A read of the last lines
shows those of the log as it was read, while its next offset is where the log ended before; the next
read therefore starts after what was shown exactly when nothing was appended in between. -/
theorem buildLog_follow (buildId slug : String) (lines : Int) (mode : BitVec 12)
    (content : List UInt8) :
    (∀ (turns : List Turn) (f : Follower), follow buildId slug lines mode content turns = .ok f →
      (f.texts.flatten = decodeReplace (f.content.take f.offset) ↔
        AllClean buildId slug lines mode ⟨content, 0, []⟩ turns)) ∧
    (∀ (offset : Nat) (arriving : List UInt8) (stateFile : Option StateFile) (reply : Reply),
      readBuildLog ⟨buildId, slug, lines, some offset⟩ (some ⟨true, mode, content⟩) arriving
        stateFile = .ok reply →
      GivesPage (min offset content.length) (content ++ arriving) reply) ∧
    (∀ (arriving more : List UInt8) (stateFile : Option StateFile) (reply : Reply),
      readBuildLog ⟨buildId, slug, lines, none⟩ (some ⟨true, mode, content⟩) arriving stateFile =
        .ok reply →
      GivesTail lines.toNat (content ++ arriving) reply.text ∧
      ∃ next, reply.nextOffset = some next ∧
        (min next (content ++ arriving ++ more).length = (content ++ arriving).length ↔
          arriving = [])) ∧
    (Permitted buildId slug lines mode → ∀ (offset : Option Nat) (arriving : List UInt8)
      (stateFile : Option StateFile),
      (∀ file ∈ stateFile, isPrivateFile file.isRegular file.mode = true) →
      ∃ reply, readBuildLog ⟨buildId, slug, lines, offset.map Int.ofNat⟩
        (some ⟨true, mode, content⟩) arriving stateFile = .ok reply) := by
  refine ⟨fun turns f h => ?_, fun offset arriving stateFile reply h => ?_,
    fun arriving more stateFile reply h => ⟨?_, content.length, (readBuildLog_tail rfl h).2, ?_⟩,
    fun hpermitted offset arriving stateFile hstate => ?_⟩
  · rw [follow_reads (Nat.zero_le _) (Nat.le_of_eq rfl) h]
    exact and_iff_right rfl
  · obtain ⟨htext, hnext⟩ := readBuildLog_page rfl h
    rw [Int.toNat_natCast] at htext hnext
    refine givesPage_page ?_ htext hnext
    rw [List.length_append]
    omega
  · rw [(readBuildLog_tail rfl h).1]
    exact givesTail_tailText (Int.pos_iff_toNat_pos.mp (lines_pos_of_readBuildLog h)) _
  · rw [List.length_append, List.length_append, ← List.length_eq_zero_iff]
    omega
  · refine readBuildLog_answers hpermitted (fun n hn => ?_) hstate content arriving
    obtain ⟨m, -, rfl⟩ := Option.map_eq_some_iff.mp hn
    exact Int.natCast_nonneg m

def sampleId : String := "0b7ddd9a-1f21-4b0c-9c1a-0e7a5d0f2a11"

/-- A build writes a euro sign in two parts, and each part is read at once. -/
def euroTurns : List Turn := [⟨[0xE2], [], none⟩, ⟨[0x82, 0xAC], [], none⟩]

/-- The follower gets three replacements for one sign; and a letter that arrives while the last
lines are read is in the text and after the next offset. -/
theorem follow_euro :
    (∃ f, follow sampleId "shop" 200 0o600 [] euroTurns = .ok f ∧
      f.texts.flatten = [0xFFFD, 0xFFFD, 0xFFFD] ∧
      decodeReplace (f.content.take f.offset) = [0x20AC]) ∧
    ∃ reply, readBuildLog ⟨sampleId, "shop", 200, none⟩ (some ⟨true, 0o600, [97]⟩) [98] none =
        .ok reply ∧ reply.text = [97, 98, 10] ∧ reply.nextOffset = some 1 := by
  refine ⟨⟨⟨[0xE2, 0x82, 0xAC], 3, [[0xFFFD], [0xFFFD, 0xFFFD]]⟩, ?_, rfl, by decide⟩,
    ⟨⟨sampleId, true, "unknown", [97, 98, 10], 1, some 1⟩, ?_, rfl, rfl⟩⟩
  · decide +kernel
  · decide +kernel

/-- The reads of a sign in two parts, a page of the part that was read before its end, and a read of
the last line with nothing arriving. -/
theorem buildLog_follow_euro :
    ([[0xFFFD], [0xFFFD, 0xFFFD]].flatten = decodeReplace ([0xE2, 0x82, 0xAC].take 3) ↔
      AllClean sampleId "shop" 200 0o600 ⟨[], 0, []⟩ euroTurns) ∧
    GivesPage 1 [97, 98, 99] ⟨sampleId, true, "unknown", [98, 99], 2, some 3⟩ ∧
    (GivesTail 1 [97, 10, 98] [98, 10] ∧
      ∃ next, some 3 = some next ∧ (min next ([97, 10, 98] ++ [] ++ [98]).length =
        ([97, 10, 98] ++ []).length ↔ ([] : List UInt8) = [])) ∧
    ∃ reply, readBuildLog ⟨sampleId, "shop", 200, some 0⟩ (some ⟨true, 0o600, [97, 98]⟩) [] none =
      .ok reply :=
  ⟨(buildLog_follow sampleId "shop" 200 0o600 []).1 euroTurns
      ⟨[0xE2, 0x82, 0xAC], 3, [[0xFFFD], [0xFFFD, 0xFFFD]]⟩ (by decide +kernel),
    (buildLog_follow sampleId "shop" 200 0o600 [97, 98]).2.1 1 [99] none
      ⟨sampleId, true, "unknown", [98, 99], 2, some 3⟩ (by decide +kernel),
    (buildLog_follow sampleId "shop" 1 0o600 [97, 10, 98]).2.2.1 [] [98] none
      ⟨sampleId, true, "unknown", [98, 10], 3, some 3⟩ (by decide +kernel),
    (buildLog_follow sampleId "shop" 200 0o600 [97, 98]).2.2.2
      ⟨by decide +kernel, by decide +kernel, by decide, by decide⟩ (some 0) [] none
      fun _ hfile => nomatch hfile⟩

end BuildLogs

end Helper

end OpenstackPlatform
