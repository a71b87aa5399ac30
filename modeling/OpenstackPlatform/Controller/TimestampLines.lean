import Mathlib.Data.List.TakeWhile
import OpenstackPlatform.Library.Records
import OpenstackPlatform.Library.Utf8Bytes

/-!
# Runtime logs with timestamps

`TimestampLines` of `log_timestamps.cjs` cuts the output of an app into records.  A record ends at
a newline, when it is full, or when the app has been silent for a while.  A full record gives the
start of a character at its end to the next one; a silent app's record is sent as it is.

* `leadStart`, `width`, `held`: the part of a full record that is kept back.
* `TimestampLines`, `emitLine`, `round`, `transform`, `idle`, `flush`: the transform.
* `Event`, `run`: chunks and timers, in any order.
* `Grouped`, `Tracks`, `tracks_round`: records and the stream that they come from.
* `timestampLines_records`: nothing is lost, and what separates records.
-/

namespace OpenstackPlatform
namespace Controller

open Library Utf8

/-! ## The transform -/

namespace TimestampLines

/-- `MAX_LINE_BYTES` -/
def maxLineBytes : Nat := 8192

/-- `(byte & 0xc0) === 0x80` -/
def isContinuation (b : UInt8) : Bool := b &&& 0xc0 == 0x80

/-- The search for a lead byte in a full buffer, from a place on: at most four bytes back. -/
def leadStart (pending : List UInt8) : Nat → Nat
  | 0 => 0
  | start + 1 =>
    if pending.length - 4 < start + 1 ∧ (pending[start + 1]?.any isContinuation) = true then
      leadStart pending start
    else start + 1

/-- How many bytes the character of a lead byte has. -/
def width (lead : UInt8) : Nat :=
  if 0xf0 ≤ lead.toNat ∧ lead.toNat ≤ 0xf4 then 4
  else if 0xe0 ≤ lead.toNat ∧ lead.toNat ≤ 0xef then 3
  else if 0xc2 ≤ lead.toNat ∧ lead.toNat ≤ 0xdf then 2
  else 1

/-- How many bytes of a full buffer are held for the next record. -/
def held (pending : List UInt8) : Nat :=
  let start := leadStart pending (pending.length - 1)
  match pending[start]? with
  | some lead => if pending.length - start < width lead then pending.length - start else 0
  | none => 0

/-- A line that was pushed: its timestamp and its payload. -/
structure Line where
  timestamp : String
  payload : List UInt8
  deriving DecidableEq

end TimestampLines

/-- `TimestampLines`: `pending` is the filled part of the buffer, `timestamp` is `none` for the
empty string, `timer` says that the timer is set.  The clock has been read `readings` times. -/
structure TimestampLines where
  pending : List UInt8
  timestamp : Option String
  continued : Bool
  timer : Bool
  readings : Nat
  pushed : List TimestampLines.Line
  pending_lt : pending.length < TimestampLines.maxLineBytes

namespace TimestampLines

/-- `constructor` -/
def new : TimestampLines where
  pending := []
  timestamp := none
  continued := false
  timer := false
  readings := 0
  pushed := []
  pending_lt := by decide

/-- `emitLine`, with the filled part of the buffer and the timestamp of the moment. -/
def emitLine (clock : Nat → String) (continued : Bool) (payload : List UInt8)
    (timestamp : Option String) (lines : TimestampLines) : TimestampLines :=
  { lines with
    pushed := lines.pushed ++ [⟨timestamp.getD (clock lines.readings), payload⟩]
    readings := if timestamp.isNone then lines.readings + 1 else lines.readings
    pending := []
    timestamp := none
    continued := continued
    pending_lt := by decide }

/-- How much of a chunk a round takes before a newline, or before the buffer is full. -/
def taken (lines : TimestampLines) (chunk : List UInt8) : Nat :=
  min (chunk.takeWhile (· != 10)).length (maxLineBytes - lines.pending.length)

/-- The buffer after a round has taken its part of a chunk. -/
def filled (lines : TimestampLines) (chunk : List UInt8) : List UInt8 :=
  lines.pending ++ chunk.take (lines.taken chunk)

/-- The first part of a round: a new buffer gets a timestamp. -/
def begin (clock : Nat → String) (lines : TimestampLines) (chunk : List UInt8) : TimestampLines :=
  if lines.taken chunk ≠ 0 ∧ lines.pending = [] then
    { lines with timestamp := some (clock lines.readings), readings := lines.readings + 1 }
  else lines

theorem length_filled (lines : TimestampLines) (chunk : List UInt8) :
    (lines.filled chunk).length = lines.pending.length + lines.taken chunk ∧
      (lines.filled chunk).length ≤ maxLineBytes := by
  have hlt := lines.pending_lt
  have hline : lines.taken chunk ≤ (chunk.takeWhile (· != 10)).length := Nat.min_le_left _ _
  have hroom : lines.taken chunk ≤ maxLineBytes - lines.pending.length := Nat.min_le_right _ _
  have hhead := (List.takeWhile_prefix (p := (· != 10)) (l := chunk)).length_le
  rw [filled, List.length_append, List.length_take]
  omega

theorem held_le (pending : List UInt8) : held pending ≤ 3 := by
  unfold held
  dsimp only
  split
  · rename_i lead _
    split
    · rename_i hlt
      have hwidth : width lead ≤ 4 := by
        unfold width
        split
        · exact Nat.le_refl _
        split
        · decide
        split
        · decide
        · decide
      omega
    · exact Nat.zero_le _
  · exact Nat.zero_le _

/-- One round of the loop of `_transform` on the part of the chunk that is left. -/
def round (clock : Nat → String) (lines : TimestampLines) (chunk : List UInt8) :
    TimestampLines × List UInt8 :=
  let begun := lines.begin clock chunk
  let filled := lines.filled chunk
  let rest := chunk.drop (lines.taken chunk)
  -- the offset is that of the newline
  if rest.head? = some 10 then
    ({ (if filled ≠ [] ∨ lines.continued = false then
          begun.emitLine clock false filled begun.timestamp else begun) with
        continued := false }, rest.tail)
  else if h : filled.length = maxLineBytes then
    let emitted := begun.emitLine clock true (filled.take (filled.length - held filled))
      begun.timestamp
    if held filled ≠ 0 then
      ({ emitted with
        pending := filled.drop (filled.length - held filled)
        timestamp := some (clock emitted.readings)
        readings := emitted.readings + 1
        pending_lt := by
          have hheld := held_le filled
          have hmax : maxLineBytes = 8192 := rfl
          rw [List.length_drop]
          omega }, rest)
    else (emitted, rest)
  else
    ({ begun with
      pending := filled
      pending_lt := Nat.lt_of_le_of_ne (lines.length_filled chunk).2 h }, rest)

/-- Every round takes something. -/
theorem length_round_lt (clock : Nat → String) (lines : TimestampLines) {chunk : List UInt8}
    (h : chunk ≠ []) : (lines.round clock chunk).2.length < chunk.length := by
  have hlt := lines.pending_lt
  have hrest : (chunk.drop (lines.taken chunk)).length = chunk.length - lines.taken chunk :=
    List.length_drop
  have hpos : 0 < chunk.length := List.length_pos_of_ne_nil h
  by_cases hhead : (chunk.drop (lines.taken chunk)).head? = some 10
  · have hround : (lines.round clock chunk).2 = (chunk.drop (lines.taken chunk)).tail := by
      unfold round
      simp only [hhead, if_true]
    rw [hround, List.length_tail, hrest]
    omega
  · have hround : (lines.round clock chunk).2 = chunk.drop (lines.taken chunk) := by
      unfold round
      simp only [hhead, if_false]
      split
      · split
        · rfl
        · rfl
      · rfl
    have hne : lines.taken chunk ≠ 0 := by
      intro hzero
      rw [hzero, List.drop_zero] at hhead
      obtain ⟨b, rest, rfl⟩ := List.exists_cons_of_ne_nil h
      have hb : b ≠ 10 := fun hb => hhead (by rw [hb]; rfl)
      rw [taken, List.takeWhile_cons_of_pos (by simpa using hb), List.length_cons] at hzero
      omega
    rw [hround, hrest]
    omega

/-- The loop of `_transform`. -/
def loop (clock : Nat → String) (lines : TimestampLines) (chunk : List UInt8) : TimestampLines :=
  if _ : chunk = [] then lines
  else loop clock (lines.round clock chunk).1 (lines.round clock chunk).2
termination_by chunk.length
decreasing_by exact length_round_lt clock lines (by assumption)

/-- `_transform`: the timer is cleared first, and set again for a line that has not ended. -/
def transform (clock : Nat → String) (lines : TimestampLines) (chunk : List UInt8) :
    TimestampLines :=
  let after := loop clock { lines with timer := false } chunk
  { after with timer := !after.pending.isEmpty }

/-- The timer fires, if it is set. -/
def idle (clock : Nat → String) (lines : TimestampLines) : TimestampLines :=
  if lines.timer then
    { lines.emitLine clock true lines.pending lines.timestamp with timer := false }
  else lines

/-- `_flush` -/
def flush (clock : Nat → String) (lines : TimestampLines) : TimestampLines :=
  let cleared := { lines with timer := false }
  if cleared.pending ≠ [] then
    cleared.emitLine clock false cleared.pending cleared.timestamp
  else cleared

/-- What happens to the transform before the end of its input. -/
inductive Event where
  | chunk (data : List UInt8)
  | idle

/-- The bytes of an event. -/
def Event.data : Event → List UInt8
  | .chunk data => data
  | .idle => []

/-- One event. -/
def step (clock : Nat → String) (lines : TimestampLines) : Event → TimestampLines
  | .chunk data => lines.transform clock data
  | .idle => lines.idle clock

/-- The events of a run, from the start. -/
def run (clock : Nat → String) (events : List Event) : TimestampLines :=
  events.foldl (step clock) new

/-- The stream of a run. -/
def stream (events : List Event) : List UInt8 := events.flatMap Event.data

/-- The payloads that were pushed. -/
def payloads (lines : TimestampLines) : List (List UInt8) := lines.pushed.map Line.payload

/-! ## Held bytes -/

theorem isContinuation_iff (b : UInt8) : isContinuation b = true ↔ IsTail b := by
  have hall : ∀ i : Fin 256, (isContinuation (UInt8.ofNat i) = true ↔
      0x80 ≤ i.val ∧ i.val < 0xC0) := by
    decide +kernel
  have hb := hall ⟨b.toNat, b.toNat_lt⟩
  simp only [UInt8.ofNat_toNat] at hb
  exact hb

/-- Where the search for a lead byte ends. -/
theorem leadStart_spec {pending : List UInt8} : ∀ m : Nat,
    leadStart pending m ≤ m ∧
    (∀ i, leadStart pending m < i → i ≤ m → (pending[i]?.any isContinuation) = true) ∧
    (leadStart pending m ≤ pending.length - 4 ∨
      (pending[leadStart pending m]?.any isContinuation) = false)
  | 0 => ⟨Nat.le_refl _, fun i hlow hhigh => by omega, .inl (Nat.zero_le _)⟩
  | m + 1 => by
    rw [leadStart]
    by_cases hback : pending.length - 4 < m + 1 ∧ (pending[m + 1]?.any isContinuation) = true
    · rw [if_pos hback]
      obtain ⟨hle, htails, hend⟩ := @leadStart_spec pending m
      refine ⟨by omega, fun i hlow hhigh => ?_, hend⟩
      rcases Nat.lt_or_eq_of_le hhigh with hlt | rfl
      · exact htails i hlow (by omega)
      · exact hback.2
    · rw [if_neg hback]
      refine ⟨Nat.le_refl _, fun i hlow hhigh => by omega, ?_⟩
      by_cases hfour : pending.length - 4 < m + 1
      · exact .inr (Bool.eq_false_iff.mpr fun htail => hback ⟨hfour, htail⟩)
      · exact .inl (by omega)

theorem width_of_asks {lead : UInt8} {tails : Nat} (h : Asks lead tails) :
    width lead = tails + 1 := by
  unfold width
  rcases h with ⟨rfl, h⟩ | ⟨rfl, h⟩ | ⟨rfl, h⟩ | ⟨rfl, h⟩
  · rw [if_neg (by omega), if_neg (by omega), if_neg (by omega)]
  · rw [if_neg (by omega), if_neg (by omega), if_pos (by omega)]
  · rw [if_neg (by omega), if_pos (by omega)]
  · rw [if_pos (by omega)]

theorem not_isTail_of_width {lead : UInt8} (h : 1 < width lead) : ¬ IsTail lead := by
  rintro ⟨hlow, hhigh⟩
  unfold width at h
  rw [if_neg (by omega), if_neg (by omega), if_neg (by omega)] at h
  omega

/-- The held bytes start with one that continues no character. -/
theorem held_lead {pending : List UInt8} (h : held pending ≠ 0) :
    ∃ lead, pending[pending.length - held pending]? = some lead ∧ ¬ IsTail lead := by
  have hstart := (@leadStart_spec pending (pending.length - 1)).1
  unfold held at h ⊢
  dsimp only at h ⊢
  split at h
  · rename_i lead hlead
    by_cases hwidth :
        pending.length - leadStart pending (pending.length - 1) < width lead
    · have hpos : leadStart pending (pending.length - 1) < pending.length :=
        (List.getElem?_eq_some_iff.mp hlead).1
      refine ⟨lead, ?_, not_isTail_of_width (by omega)⟩
      rw [if_pos hwidth, Nat.sub_sub_self (by omega), hlead]
    · rw [if_neg hwidth] at h
      exact absurd rfl h
  · exact absurd rfl h

/-- Where nothing is held, no character has started. -/
theorem not_started_of_held {pending : List UInt8} (h : held pending = 0)
    (hfour : 4 ≤ pending.length) {lead : UInt8} {tails : List UInt8} (hsuffix : lead :: tails <:+ pending)
    (htails : ∀ b ∈ tails, IsTail b) {asked : Nat} (hasks : Asks lead asked) :
    asked ≤ tails.length := by
  by_contra hlt
  have hasked := hasks.le
  obtain ⟨front, hfront⟩ := hsuffix
  have hlength : pending.length = front.length + (tails.length + 1) := by
    rw [← hfront, List.length_append, List.length_cons]
  have hlead : pending[front.length]? = some lead := by
    rw [← hfront, List.getElem?_append_right (Nat.le_refl _), Nat.sub_self, List.getElem?_cons_zero]
  have htail : ∀ i, front.length < i → i < pending.length →
      (pending[i]?.any isContinuation) = true := by
    intro i hlow hhigh
    obtain ⟨k, rfl⟩ : ∃ k, i = front.length + (k + 1) := ⟨i - front.length - 1, by omega⟩
    have hk : k < tails.length := by omega
    rw [← hfront, List.getElem?_append_right (Nat.le_add_right _ _), Nat.add_sub_cancel_left,
      List.getElem?_cons_succ, List.getElem?_eq_getElem hk, Option.any_some]
    exact (isContinuation_iff _).mpr (htails _ (List.getElem_mem hk))
  obtain ⟨hle, hafter, hend⟩ := @leadStart_spec pending (pending.length - 1)
  -- the search stops at the lead byte: not after it, where bytes continue, and not before it
  have hstart : leadStart pending (pending.length - 1) = front.length := by
    rcases Nat.lt_trichotomy (leadStart pending (pending.length - 1)) front.length with
      hless | heq | hmore
    · have hcontinues := hafter front.length hless (by omega)
      rw [hlead, Option.any_some] at hcontinues
      exact absurd ((isContinuation_iff lead).mp hcontinues) hasks.not_isTail
    · exact heq
    · rcases hend with hfar | hlast
      · omega
      · rw [htail _ hmore (by omega)] at hlast
        cases hlast
  unfold held at h
  dsimp only at h
  rw [hstart, hlead] at h
  dsimp only at h
  rw [width_of_asks hasks, if_pos (by omega)] at h
  omega

/-! ## Records and the stream -/

/-- The records of one ended line: an empty line has one, which is empty, and no other has an
empty one. -/
structure Fills (group : List (List UInt8)) (line : List UInt8) : Prop where
  flatten : group.flatten = line
  empty : line = [] → group = [[]]
  notEmpty : line ≠ [] → [] ∉ group

/-- Records and a buffer that hold a stream: a group for each ended line, and the records of the
line that has not ended. -/
structure Grouped (records : List (List UInt8)) (pending : List UInt8) (continued : Bool)
    (s : List UInt8) (groups : List (List (List UInt8))) (current : List (List UInt8)) : Prop where
  records_eq : records = groups.flatten ++ current
  fills : List.Forall₂ Fills groups (splitEnds 10 s).1
  flatten_current : current.flatten ++ pending = (splitEnds 10 s).2
  notEmpty : [] ∉ current
  continued_iff : continued = true ↔ current ≠ []

/-- The bytes of records end at a place of the stream that is inside no character, or at one where
the timer fired. -/
def Cut (s : List UInt8) (fired : List Nat) (written : List UInt8) : Prop :=
  ∃ place, place ≤ s.length ∧ (s.take place).filter (· ≠ 10) = written ∧
    (place ∈ fired ∨ ∀ t, ¬ Inside (s ++ t) place)

/-- Records and a buffer that come from a stream, with the timer fired at some places. -/
structure Holds (records : List (List UInt8)) (pending : List UInt8) (continued : Bool)
    (s : List UInt8) (fired : List Nat) : Prop where
  grouped : ∃ groups current, Grouped records pending continued s groups current
  short : ∀ p ∈ records, p.length ≤ maxLineBytes
  cuts : ∀ j, Cut s fired (records.take j).flatten

/-- The transform has got a stream, with the timer fired at some places. -/
def Tracks (lines : TimestampLines) (s : List UInt8) (fired : List Nat) : Prop :=
  Holds lines.payloads lines.pending lines.continued s fired

theorem Cut.mono {s : List UInt8} {fired fired' : List Nat} {written : List UInt8}
    (h : Cut s fired written) (w : List UInt8) (hfired : fired ⊆ fired') :
    Cut (s ++ w) fired' written := by
  obtain ⟨place, hle, hwritten, hcut⟩ := h
  refine ⟨place, ?_, ?_, hcut.imp (fun hmem => hfired hmem) fun hinside t => ?_⟩
  · rw [List.length_append]
    omega
  · rw [List.take_append_of_le_length hle, hwritten]
  · rw [List.append_assoc]
    exact hinside (w ++ t)

theorem flatten_of_fills {groups : List (List (List UInt8))} {lines : List (List UInt8)}
    (h : List.Forall₂ Fills groups lines) : groups.flatten.flatten = lines.flatten := by
  induction h with
  | nil => rfl
  | cons hfirst hrest ih =>
    rw [List.flatten_cons, List.flatten_append, ih, hfirst.flatten, List.flatten_cons]

/-- Records and buffer are the stream without its newlines. -/
theorem Grouped.flatten_eq {records : List (List UInt8)} {pending s : List UInt8}
    {continued : Bool} {groups : List (List (List UInt8))} {current : List (List UInt8)}
    (h : Grouped records pending continued s groups current) :
    records.flatten ++ pending = s.filter (· ≠ 10) := by
  rw [h.records_eq, List.flatten_append, flatten_of_fills h.fills, List.append_assoc,
    h.flatten_current, flatten_splitEnds]

theorem Grouped.notMem_pending {records : List (List UInt8)} {pending s : List UInt8}
    {continued : Bool} {groups : List (List (List UInt8))} {current : List (List UInt8)}
    (h : Grouped records pending continued s groups current) : 10 ∉ pending := by
  intro hmem
  have hfilter : 10 ∈ s.filter (· ≠ 10) := by
    rw [← h.flatten_eq]
    exact List.mem_append_right _ hmem
  simpa using (List.mem_filter.mp hfilter).2

theorem take_concat_flatten {records : List (List UInt8)} {payload : List UInt8} (j : Nat) :
    ((records ++ [payload]).take j).flatten = (records.take j).flatten ∨
      ((records ++ [payload]).take j).flatten = records.flatten ++ payload := by
  by_cases hj : j ≤ records.length
  · left
    rw [List.take_append_of_le_length hj]
  · right
    rw [List.take_of_length_le, List.flatten_append, List.flatten_singleton]
    rw [List.length_append, List.length_singleton]
    omega

/-- Cuts of records with one more. -/
theorem cuts_concat {s w : List UInt8} {fired fired' : List Nat} {records : List (List UInt8)}
    {payload : List UInt8} (h : ∀ j, Cut s fired (records.take j).flatten)
    (hfired : fired ⊆ fired') (hlast : Cut (s ++ w) fired' (records.flatten ++ payload)) (j : Nat) :
    Cut (s ++ w) fired' ((records ++ [payload]).take j).flatten := by
  rcases @take_concat_flatten records payload j with heq | heq
  · rw [heq]
    exact (h j).mono w hfired
  · rw [heq]
    exact hlast

theorem cuts_same {s w : List UInt8} {fired fired' : List Nat} {records : List (List UInt8)}
    (h : ∀ j, Cut s fired (records.take j).flatten) (hfired : fired ⊆ fired') (j : Nat) :
    Cut (s ++ w) fired' (records.take j).flatten :=
  (h j).mono w hfired

section Grouping

variable {records : List (List UInt8)} {pending s w : List UInt8} {continued : Bool}
  {groups : List (List (List UInt8))} {current : List (List UInt8)}

/-- A newline after a block: the line ends with the buffer as its last record. -/
theorem Grouped.newline (h : Grouped records pending continued s groups current) (hw : 10 ∉ w)
    (hemit : pending ++ w ≠ [] ∨ continued = false) :
    Grouped (records ++ [pending ++ w]) [] false (s ++ (w ++ [10]))
      (groups ++ [current ++ [pending ++ w]]) [] := by
  have hends := splitEnds_append_end s hw
  refine ⟨?_, ?_, ?_, List.not_mem_nil, by simp⟩
  · rw [h.records_eq, List.flatten_append, List.flatten_singleton, List.append_nil,
      List.append_assoc]
  · rw [hends]
    refine List.rel_append h.fills (.cons ⟨?_, fun hnil => ?_, fun hne hmem => ?_⟩ .nil)
    · rw [List.flatten_append, List.flatten_singleton, ← List.append_assoc, h.flatten_current]
    · rw [← h.flatten_current, List.append_assoc, List.append_eq_nil_iff] at hnil
      obtain ⟨hopen, hlast⟩ := hnil
      have hopen : current = [] := by
        rcases List.eq_nil_or_concat current with hopen' | ⟨front, last, hconcat⟩
        · exact hopen'
        · rw [hconcat, List.concat_eq_append, List.flatten_append, List.flatten_singleton,
            List.append_eq_nil_iff] at hopen
          refine absurd ?_ h.notEmpty
          rw [hconcat, List.concat_eq_append, hopen.2]
          exact List.mem_append_right _ (List.mem_singleton_self _)
      rw [hopen, hlast, List.nil_append]
    · rcases List.mem_append.mp hmem with hmem | hmem
      · exact h.notEmpty hmem
      · have hlast := (List.mem_singleton.mp hmem).symm
        rcases hemit with hemit | hemit
        · exact hemit hlast
        · have hopen : current = [] := by
            by_contra hopen
            rw [h.continued_iff.mpr hopen] at hemit
            cases hemit
          apply hne
          rw [← h.flatten_current, hopen, List.flatten_nil, List.nil_append, hlast]
  · rw [hends]
    rfl

/-- A newline right after a record that was cut: the line has its records. -/
theorem Grouped.newline_cut (h : Grouped records pending continued s groups current)
    (hpending : pending = []) (hcontinued : continued = true) :
    Grouped records [] false (s ++ [10]) (groups ++ [current]) [] := by
  have hends : splitEnds 10 (s ++ [10]) = ((splitEnds 10 s).1 ++ [(splitEnds 10 s).2], []) := by
    rw [splitEnds_concat, if_pos rfl]
  have hopen := h.continued_iff.mp hcontinued
  have hflatten := h.flatten_current
  rw [hpending, List.append_nil] at hflatten
  refine ⟨?_, ?_, ?_, List.not_mem_nil, by simp⟩
  · rw [h.records_eq, List.flatten_append, List.flatten_singleton, List.append_nil]
  · rw [hends]
    refine List.rel_append h.fills (.cons ⟨hflatten, fun hnil => ?_, fun _ => h.notEmpty⟩ .nil)
    obtain ⟨first, rest, hcons⟩ := List.exists_cons_of_ne_nil hopen
    rw [hnil, hcons, List.flatten_cons, List.append_eq_nil_iff] at hflatten
    refine absurd ?_ h.notEmpty
    rw [hcons, hflatten.1]
    exact List.mem_cons_self
  · rw [hends]
    rfl

/-- A block that joins the buffer, of which a part is cut off as a record. -/
theorem Grouped.cut (h : Grouped records pending continued s groups current) (hw : 10 ∉ w)
    {payload kept : List UInt8} (hsplit : pending ++ w = payload ++ kept) (hne : payload ≠ []) :
    Grouped (records ++ [payload]) kept true (s ++ w) groups (current ++ [payload]) := by
  have hends := splitEnds_append s hw
  refine ⟨?_, ?_, ?_, ?_, by simp⟩
  · rw [h.records_eq, List.append_assoc]
  · rw [hends]
    exact h.fills
  · rw [hends, List.flatten_append, List.flatten_singleton, List.append_assoc, ← hsplit,
      ← List.append_assoc, h.flatten_current]
  · intro hmem
    rcases List.mem_append.mp hmem with hmem | hmem
    · exact h.notEmpty hmem
    · exact hne (List.mem_singleton.mp hmem).symm

/-- A block that joins the buffer. -/
theorem Grouped.join (h : Grouped records pending continued s groups current) (hw : 10 ∉ w) :
    Grouped records (pending ++ w) continued (s ++ w) groups current := by
  have hends := splitEnds_append s hw
  refine ⟨h.records_eq, ?_, ?_, h.notEmpty, h.continued_iff⟩
  · rw [hends]
    exact h.fills
  · rw [hends, ← List.append_assoc, h.flatten_current]

theorem Grouped.filter_append (h : Grouped records pending continued s groups current)
    (hw : 10 ∉ w) : (s ++ w).filter (· ≠ 10) = records.flatten ++ (pending ++ w) := by
  rw [List.filter_append, ← h.flatten_eq, List.append_assoc]
  congr 2
  rw [List.filter_eq_self]
  intro b hb
  simpa using fun heq : b = 10 => hw (heq ▸ hb)

end Grouping

section Holding

variable {records : List (List UInt8)} {pending s w : List UInt8} {continued : Bool}
  {fired fired' : List Nat}

theorem mem_concat_short {payload : List UInt8} (h : ∀ p ∈ records, p.length ≤ maxLineBytes)
    (hpayload : payload.length ≤ maxLineBytes) :
    ∀ p ∈ records ++ [payload], p.length ≤ maxLineBytes := by
  intro p hp
  rcases List.mem_append.mp hp with hp | hp
  · exact h p hp
  · rw [List.mem_singleton.mp hp]
    exact hpayload

/-- A newline after a block ends a record; no character holds a newline. -/
theorem Holds.newline (h : Holds records pending continued s fired) (hw : 10 ∉ w)
    (hlength : (pending ++ w).length ≤ maxLineBytes)
    (hemit : pending ++ w ≠ [] ∨ continued = false) :
    Holds (records ++ [pending ++ w]) [] false (s ++ (w ++ [10])) fired := by
  obtain ⟨groups, current, hgrouped⟩ := h.grouped
  refine ⟨⟨_, _, hgrouped.newline hw hemit⟩, mem_concat_short h.short hlength, fun j => ?_⟩
  refine cuts_concat h.cuts (List.Subset.refl _) ⟨(s ++ w).length, ?_, ?_, .inr fun t => ?_⟩ j
  · rw [← List.append_assoc, @List.length_append _ (s ++ w)]
    exact Nat.le_add_right _ _
  · rw [← List.append_assoc, List.take_left, hgrouped.filter_append hw]
  · refine not_inside_of_byte (b := 10) ?_ (by unfold IsTail; decide)
    rw [← List.append_assoc, List.append_assoc _ [10],
      List.getElem?_append_right (Nat.le_refl _), Nat.sub_self]
    rfl

/-- A newline right after a record that was cut. -/
theorem Holds.newline_cut (h : Holds records [] true s fired) :
    Holds records [] false (s ++ [10]) fired := by
  obtain ⟨groups, current, hgrouped⟩ := h.grouped
  exact ⟨⟨_, _, hgrouped.newline_cut rfl rfl⟩, h.short,
    fun j => cuts_same h.cuts (List.Subset.refl _) j⟩

/-- A record that is cut off, where the timer fired or where no character is split. -/
theorem Holds.cut (h : Holds records pending continued s fired) (hw : 10 ∉ w)
    {payload kept : List UInt8} (hsplit : pending ++ w = payload ++ kept) (hne : payload ≠ [])
    (hlength : payload.length ≤ maxLineBytes) (hfired : fired ⊆ fired') {front : List UInt8}
    (hfront : s ++ w = front ++ kept)
    (hcut : front.length ∈ fired' ∨ ∀ t, ¬ Inside (s ++ w ++ t) front.length) :
    Holds (records ++ [payload]) kept true (s ++ w) fired' := by
  obtain ⟨groups, current, hgrouped⟩ := h.grouped
  have hcutGrouped := hgrouped.cut hw hsplit hne
  refine ⟨⟨_, _, hcutGrouped⟩, mem_concat_short h.short hlength, fun j => ?_⟩
  refine cuts_concat h.cuts hfired ⟨front.length, ?_, ?_, hcut⟩ j
  · rw [hfront, List.length_append]
    omega
  · have hall := hcutGrouped.flatten_eq
    have hkept : kept.filter (· ≠ 10) = kept := by
      rw [List.filter_eq_self]
      intro b hb
      simpa using fun heq : b = 10 => hcutGrouped.notMem_pending (heq ▸ hb)
    rw [hfront, List.filter_append, hkept, List.flatten_append, List.flatten_singleton] at hall
    rw [hfront, List.take_left, List.append_cancel_right hall]

/-- A block that joins the buffer. -/
theorem Holds.join (h : Holds records pending continued s fired) (hw : 10 ∉ w) :
    Holds records (pending ++ w) continued (s ++ w) fired := by
  obtain ⟨groups, current, hgrouped⟩ := h.grouped
  exact ⟨⟨_, _, hgrouped.join hw⟩, h.short, fun j => cuts_same h.cuts (List.Subset.refl _) j⟩

/-- The buffer ends the stream. -/
theorem Holds.suffix (h : Holds records pending continued s fired) : pending <:+ s := by
  obtain ⟨groups, current, hgrouped⟩ := h.grouped
  have hrest := @splitEnds_suffix _ _ 10 s
  rw [← hgrouped.flatten_current] at hrest
  exact (List.suffix_append _ _).trans hrest

end Holding

/-! ## A round of the loop -/

theorem notMem_taken (lines : TimestampLines) (chunk : List UInt8) :
    10 ∉ chunk.take (lines.taken chunk) :=
  notMem_take_of_le (Nat.min_le_left _ _)

theorem begin_payloads (clock : Nat → String) (lines : TimestampLines) (chunk : List UInt8) :
    (lines.begin clock chunk).payloads = lines.payloads ∧
      (lines.begin clock chunk).continued = lines.continued ∧
      (lines.begin clock chunk).pending = lines.pending := by
  unfold begin
  split
  · exact ⟨rfl, rfl, rfl⟩
  · exact ⟨rfl, rfl, rfl⟩

theorem payloads_emitLine (clock : Nat → String) (continued : Bool) (payload : List UInt8)
    (timestamp : Option String) (lines : TimestampLines) :
    (lines.emitLine clock continued payload timestamp).payloads = lines.payloads ++ [payload] := by
  unfold emitLine payloads
  rw [List.map_append, List.map_singleton]

section Round

variable {clock : Nat → String} {lines : TimestampLines} {s chunk : List UInt8} {fired : List Nat}

/-- A round that reaches a newline. -/
theorem tracks_newline (h : Tracks lines s fired) {rest : List UInt8}
    (hrest : chunk.drop (lines.taken chunk) = 10 :: rest) :
    (lines.round clock chunk).2 = rest ∧
      Tracks (lines.round clock chunk).1 (s ++ (chunk.take (lines.taken chunk) ++ [10])) fired := by
  have hw := notMem_taken lines chunk
  obtain ⟨hpayloads, -, hpending⟩ := begin_payloads clock lines chunk
  have hround : lines.round clock chunk =
      ({ (if lines.filled chunk ≠ [] ∨ lines.continued = false then
            (lines.begin clock chunk).emitLine clock false (lines.filled chunk)
              (lines.begin clock chunk).timestamp else lines.begin clock chunk) with
          continued := false }, rest) := by
    unfold round
    simp only [hrest, List.head?_cons, if_true, List.tail_cons]
  rw [hround]
  refine ⟨rfl, ?_⟩
  by_cases hemit : lines.filled chunk ≠ [] ∨ lines.continued = false
  · rw [if_pos hemit]
    show Holds ((lines.begin clock chunk).emitLine clock false (lines.filled chunk)
      (lines.begin clock chunk).timestamp).payloads [] false _ _
    rw [payloads_emitLine, hpayloads]
    exact Holds.newline h hw (lines.length_filled chunk).2 hemit
  · -- the line ended with the last record that was cut
    rw [if_neg hemit]
    show Holds (lines.begin clock chunk).payloads (lines.begin clock chunk).pending false _ _
    have hcontinued : lines.continued = true := by
      cases hc : lines.continued with
      | true => rfl
      | false => exact absurd (.inr hc) hemit
    obtain ⟨hnil, htaken⟩ : lines.pending = [] ∧ chunk.take (lines.taken chunk) = [] := by
      refine List.append_eq_nil_iff.mp ?_
      by_contra hne
      exact hemit (.inl hne)
    unfold Tracks at h
    rw [hnil, hcontinued] at h
    rw [hpayloads, hpending, hnil, htaken, List.nil_append]
    exact h.newline_cut

/-- A round that fills the buffer. -/
theorem tracks_full (h : Tracks lines s fired)
    (hhead : (chunk.drop (lines.taken chunk)).head? ≠ some 10)
    (hfull : (lines.filled chunk).length = maxLineBytes) :
    (lines.round clock chunk).2 = chunk.drop (lines.taken chunk) ∧
      Tracks (lines.round clock chunk).1 (s ++ chunk.take (lines.taken chunk)) fired := by
  have hw := notMem_taken lines chunk
  have hheld := held_le (lines.filled chunk)
  have hmax : maxLineBytes = 8192 := rfl
  obtain ⟨hpayloads, -, -⟩ := begin_payloads clock lines chunk
  obtain ⟨before, hbefore⟩ : lines.filled chunk <:+ s ++ chunk.take (lines.taken chunk) :=
    (Holds.join h hw).suffix
  -- the cut separates the payload and the held bytes
  have hsplit := List.take_append_drop
    ((lines.filled chunk).length - held (lines.filled chunk)) (lines.filled chunk)
  have hpayload : ((lines.filled chunk).take
      ((lines.filled chunk).length - held (lines.filled chunk))).length =
        maxLineBytes - held (lines.filled chunk) := by
    rw [List.length_take, hfull]
    omega
  have hne : (lines.filled chunk).take
      ((lines.filled chunk).length - held (lines.filled chunk)) ≠ [] := by
    rw [← List.length_pos_iff, hpayload]
    omega
  have hcut : ∀ t, ¬ Inside (s ++ chunk.take (lines.taken chunk) ++ t)
      (before ++ (lines.filled chunk).take
        ((lines.filled chunk).length - held (lines.filled chunk))).length := by
    intro t hinside
    by_cases hzero : held (lines.filled chunk) = 0
    · obtain ⟨lead, tails, hsuffix, htails, asked, hasks, hlt⟩ := hinside.before
      rw [hzero, Nat.sub_zero, List.take_length, hbefore, List.take_left] at hsuffix
      have hshort : lead :: tails <:+ lines.filled chunk := by
        refine List.suffix_of_suffix_length_le hsuffix ⟨before, hbefore⟩ ?_
        have := hasks.le
        rw [List.length_cons, hfull]
        omega
      have := not_started_of_held hzero (by omega) hshort htails hasks
      omega
    · obtain ⟨lead, hlead, hnotTail⟩ := held_lead hzero
      refine not_inside_of_byte ?_ hnotTail hinside
      rw [← hbefore, List.append_assoc, List.length_append, List.length_take,
        Nat.min_eq_left (Nat.sub_le _ _), List.getElem?_append_right (Nat.le_add_right _ _),
        Nat.add_sub_cancel_left, List.getElem?_append_left (by omega)]
      exact hlead
  have hfront : s ++ chunk.take (lines.taken chunk) =
      before ++ (lines.filled chunk).take
        ((lines.filled chunk).length - held (lines.filled chunk)) ++
      (lines.filled chunk).drop ((lines.filled chunk).length - held (lines.filled chunk)) := by
    rw [List.append_assoc, hsplit, hbefore]
  have hholds := Holds.cut h hw hsplit.symm hne (by omega) (List.Subset.refl _) hfront (.inr hcut)
  have hrecords : ((lines.begin clock chunk).emitLine clock true ((lines.filled chunk).take
      ((lines.filled chunk).length - held (lines.filled chunk)))
      (lines.begin clock chunk).timestamp).payloads = lines.payloads ++ [(lines.filled chunk).take
        ((lines.filled chunk).length - held (lines.filled chunk))] := by
    rw [payloads_emitLine, hpayloads]
  unfold round
  simp only [hhead, if_false]
  rw [dif_pos hfull]
  by_cases hzero : held (lines.filled chunk) = 0
  · rw [if_neg (not_not_intro hzero)]
    refine ⟨rfl, ?_⟩
    show Holds ((lines.begin clock chunk).emitLine clock true ((lines.filled chunk).take
      ((lines.filled chunk).length - held (lines.filled chunk)))
      (lines.begin clock chunk).timestamp).payloads [] true _ _
    have hnil : (lines.filled chunk).drop
        ((lines.filled chunk).length - held (lines.filled chunk)) = [] := by
      rw [hzero, Nat.sub_zero, List.drop_length]
    rw [hnil] at hholds
    rw [hrecords]
    exact hholds
  · rw [if_pos hzero]
    refine ⟨rfl, ?_⟩
    show Holds ((lines.begin clock chunk).emitLine clock true ((lines.filled chunk).take
      ((lines.filled chunk).length - held (lines.filled chunk)))
      (lines.begin clock chunk).timestamp).payloads ((lines.filled chunk).drop
        ((lines.filled chunk).length - held (lines.filled chunk))) true _ _
    rw [hrecords]
    exact hholds

/-- A round that takes the last of the chunk. -/
theorem tracks_open (h : Tracks lines s fired)
    (hhead : (chunk.drop (lines.taken chunk)).head? ≠ some 10)
    (hfull : (lines.filled chunk).length ≠ maxLineBytes) :
    (lines.round clock chunk).2 = chunk.drop (lines.taken chunk) ∧
      Tracks (lines.round clock chunk).1 (s ++ chunk.take (lines.taken chunk)) fired := by
  obtain ⟨hpayloads, hcontinued, -⟩ := begin_payloads clock lines chunk
  unfold round
  simp only [hhead, if_false]
  rw [dif_neg hfull]
  refine ⟨rfl, ?_⟩
  show Holds (lines.begin clock chunk).payloads (lines.filled chunk)
    (lines.begin clock chunk).continued _ _
  rw [hpayloads, hcontinued]
  exact Holds.join h (notMem_taken lines chunk)

/-- A round keeps track of what it takes: up to a newline, up to a full buffer, or all. -/
theorem tracks_round (h : Tracks lines s fired) :
    ∃ consumed, chunk = consumed ++ (lines.round clock chunk).2 ∧
      Tracks (lines.round clock chunk).1 (s ++ consumed) fired := by
  have hsplit := List.take_append_drop (lines.taken chunk) chunk
  by_cases hhead : (chunk.drop (lines.taken chunk)).head? = some 10
  · obtain ⟨rest, hrest⟩ : ∃ rest, chunk.drop (lines.taken chunk) = 10 :: rest :=
      List.head?_eq_some_iff.mp hhead
    obtain ⟨hround, htracks⟩ := tracks_newline h hrest
    refine ⟨_, ?_, htracks⟩
    rw [hround, List.append_assoc, List.singleton_append, ← hrest, hsplit]
  by_cases hfull : (lines.filled chunk).length = maxLineBytes
  · obtain ⟨hround, htracks⟩ := tracks_full h hhead hfull
    exact ⟨_, by rw [hround, hsplit], htracks⟩
  · obtain ⟨hround, htracks⟩ := tracks_open h hhead hfull
    exact ⟨_, by rw [hround, hsplit], htracks⟩

/-- The loop keeps track of all of the chunk, by induction on its length. -/
theorem tracks_loop (h : Tracks lines s fired) :
    Tracks (lines.loop clock chunk) (s ++ chunk) fired := by
  fun_induction loop clock lines chunk generalizing s with
  | case1 lines =>
    rw [List.append_nil]
    exact h
  | case2 lines chunk hchunk ih =>
    obtain ⟨consumed, hconsumed, hround⟩ := tracks_round h
    have hrest := ih hround
    rw [List.append_assoc, ← hconsumed] at hrest
    exact hrest

end Round

/-! ## Runs -/

/-- The places of a stream at which the timer fires. -/
def firings : Nat → List Event → List Nat
  | _, [] => []
  | place, .chunk data :: events => firings (place + data.length) events
  | place, .idle :: events => place :: firings place events

theorem exists_of_mem_firings {events : List Event} : ∀ {start place : Nat},
    place ∈ firings start events → ∃ before after, events = before ++ .idle :: after ∧
      place = start + (stream before).length := by
  induction events with
  | nil =>
    intro start place h
    cases h
  | cons event events ih =>
    intro start place h
    cases event with
    | chunk data =>
      obtain ⟨before, after, rfl, rfl⟩ := ih h
      refine ⟨.chunk data :: before, after, rfl, ?_⟩
      show _ = start + (data ++ stream before).length
      rw [List.length_append, ← Nat.add_assoc]
    | idle =>
      rcases List.mem_cons.mp h with rfl | h
      · exact ⟨[], events, rfl, rfl⟩
      · obtain ⟨before, after, rfl, rfl⟩ := ih h
        exact ⟨.idle :: before, after, rfl, rfl⟩

section Run

variable {clock : Nat → String} {lines : TimestampLines} {s : List UInt8} {fired : List Nat}

/-- The transform between events: the timer is set only for a line that has not ended. -/
structure Ready (lines : TimestampLines) (s : List UInt8) (fired : List Nat) : Prop where
  tracks : Tracks lines s fired
  timer : lines.timer = true → lines.pending ≠ []

theorem ready_transform (h : Ready lines s fired) (chunk : List UInt8) :
    Ready (lines.transform clock chunk) (s ++ chunk) fired where
  tracks := @tracks_loop clock { lines with timer := false } s chunk fired h.tracks
  timer htimer := by
    rw [transform] at htimer ⊢
    simpa using htimer

theorem ready_idle (h : Ready lines s fired) :
    Ready (lines.idle clock) s (s.length :: fired) := by
  unfold idle
  by_cases htimer : lines.timer = true
  · rw [if_pos htimer]
    have hcut := Holds.cut h.tracks (List.not_mem_nil (a := 10))
      (List.append_nil lines.pending |>.trans (List.append_nil lines.pending).symm)
      (h.timer htimer) (Nat.le_of_lt lines.pending_lt)
      (List.subset_cons_self s.length fired)
      ((List.append_nil s).trans (List.append_nil s).symm) (.inl List.mem_cons_self)
    rw [List.append_nil] at hcut
    refine ⟨?_, fun hset => by cases hset⟩
    show Holds (lines.emitLine clock true lines.pending lines.timestamp).payloads [] true _ _
    rw [payloads_emitLine]
    exact hcut
  · rw [if_neg htimer]
    obtain ⟨⟨hgrouped, hshort, hcuts⟩, hset⟩ := h
    refine ⟨⟨hgrouped, hshort, fun j => ?_⟩, hset⟩
    have hmono := (hcuts j).mono [] (List.subset_cons_self s.length fired)
    rwa [List.append_nil] at hmono

/-- A run, by induction on its events. -/
theorem ready_foldl {events : List Event} (h : Ready lines s fired) :
    ∃ fired', Ready (events.foldl (step clock) lines) (s ++ stream events) fired' ∧
      fired' ⊆ firings s.length events ++ fired := by
  induction events generalizing lines s fired with
  | nil =>
    refine ⟨fired, ?_, List.subset_append_right _ _⟩
    rw [stream, List.flatMap_nil, List.append_nil]
    exact h
  | cons event events ih =>
    cases event with
    | chunk data =>
      obtain ⟨fired', hready, hsub⟩ := ih (@ready_transform clock lines s fired h data)
      refine ⟨fired', ?_, ?_⟩
      · rw [List.append_assoc] at hready
        exact hready
      · rw [List.length_append] at hsub
        exact hsub
    | idle =>
      obtain ⟨fired', hready, hsub⟩ := ih (@ready_idle clock lines s fired h)
      refine ⟨fired', hready, fun place hplace => ?_⟩
      rcases List.mem_append.mp (hsub hplace) with hmem | hmem
      · exact List.mem_append_left _ (List.mem_cons_of_mem _ hmem)
      · rcases List.mem_cons.mp hmem with rfl | hmem
        · exact List.mem_append_left _ List.mem_cons_self
        · exact List.mem_append_right _ hmem

end Run

theorem ready_new : Ready new [] [] where
  tracks := by
    refine ⟨⟨[], [], ⟨rfl, .nil, rfl, List.not_mem_nil, by decide⟩⟩, ?_, fun j => ?_⟩
    · intro p hp
      cases hp
    · refine ⟨0, Nat.le_refl _, ?_, .inr fun t => ?_⟩
      · show [] = (([] : List (List UInt8)).take j).flatten
        rw [List.take_nil, List.flatten_nil]
      · rintro ⟨a, c, b, -, -, hlow, -⟩
        exact absurd hlow (Nat.not_lt_zero _)
  timer h := by cases h

/-- Records separate bytes of a character that stands after some bytes of the stream. -/
def Splits (records : List (List UInt8)) (before c : List UInt8) : Prop :=
  ∃ j, (before.filter (· ≠ 10)).length < (records.take j).flatten.length ∧
    (records.take j).flatten.length < (before.filter (· ≠ 10)).length + c.length

/-- What was pushed at the end of the input. -/
theorem holds_flush {clock : Nat → String} {lines : TimestampLines} {s : List UInt8}
    {fired : List Nat} (h : Tracks lines s fired) :
    ∃ continued, Holds (lines.flush clock).payloads [] continued s (s.length :: fired) := by
  unfold flush
  by_cases hpending : lines.pending = []
  · refine ⟨lines.continued, ?_⟩
    simp only [hpending, ne_eq, not_true_eq_false, if_false]
    unfold Tracks at h
    rw [hpending] at h
    refine ⟨h.grouped, h.short, fun j => ?_⟩
    have hmono := (h.cuts j).mono [] (List.subset_cons_self s.length fired)
    rwa [List.append_nil] at hmono
  · refine ⟨true, ?_⟩
    have hcut := Holds.cut h (List.not_mem_nil (a := 10))
      (List.append_nil lines.pending |>.trans (List.append_nil lines.pending).symm)
      hpending (Nat.le_of_lt lines.pending_lt) (List.subset_cons_self s.length fired)
      ((List.append_nil s).trans (List.append_nil s).symm) (.inl List.mem_cons_self)
    rw [List.append_nil] at hcut
    simp only [hpending, ne_eq, not_false_eq_true, if_true]
    rw [payloads_emitLine]
    exact hcut

/-- A cut that separates bytes of a character is a place inside it. -/
theorem inside_of_cut {s a c b : List UInt8} {place : Nat} (hs : s = a ++ (c ++ b))
    (hc : 10 ∉ c)
    (hlow : (a.filter (· ≠ 10)).length < ((s.take place).filter (· ≠ 10)).length)
    (hhigh : ((s.take place).filter (· ≠ 10)).length <
      (a.filter (· ≠ 10)).length + c.length) :
    a.length < place ∧ place < a.length + c.length := by
  have hmono : ∀ p q : List UInt8, p <+: q →
      (p.filter (· ≠ 10)).length ≤ (q.filter (· ≠ 10)).length :=
    fun p q hpq => (hpq.filter _).length_le
  constructor
  · by_contra hle
    have := hmono (s.take place) a (by
      rw [hs, List.take_append_of_le_length (by omega)]
      exact List.take_prefix _ _)
    omega
  · by_contra hle
    have hhead : a ++ c <+: s.take place := by
      rw [hs, ← List.append_assoc]
      refine List.prefix_of_prefix_length_le (List.prefix_append _ _) (List.take_prefix _ _) ?_
      have hlength := congrArg List.length hs
      rw [List.length_take]
      simp only [List.length_append] at hlength ⊢
      omega
    have := hmono _ _ hhead
    have hall : c.filter (· ≠ 10) = c := by
      rw [List.filter_eq_self]
      intro d hd
      simpa using fun heq : d = 10 => hc (heq ▸ hd)
    rw [List.filter_append, List.length_append, hall] at this
    omega

/-- Runtime logs: whatever the chunks and the firings of the timer, the pushed records are the
bytes of the stream but for its newlines; each ended line has its own records, an empty one only
if it is empty; no record is too long, and every round of the loop takes something; and records
separate the bytes of a character only where the timer fired between them. -/
theorem timestampLines_records (clock : Nat → String) (events : List Event) :
    (((run clock events).flush clock).payloads.flatten = (stream events).filter (· ≠ 10)) ∧
    (∃ groups current, ((run clock events).flush clock).payloads = groups.flatten ++ current ∧
      List.Forall₂ Fills groups (splitEnds 10 (stream events)).1 ∧
      current.flatten = (splitEnds 10 (stream events)).2 ∧ [] ∉ current) ∧
    (∀ payload ∈ ((run clock events).flush clock).payloads, payload.length ≤ maxLineBytes) ∧
    (∀ (lines : TimestampLines) (chunk : List UInt8), chunk ≠ [] →
      (lines.round clock chunk).2.length < chunk.length) ∧
    ∀ a c b, IsCharacter c → stream events = a ++ (c ++ b) →
      (∀ before after, events = before ++ .idle :: after →
        ¬ (a.length < (stream before).length ∧ (stream before).length < a.length + c.length)) →
      ¬ Splits ((run clock events).flush clock).payloads a c := by
  obtain ⟨fired, hready, hfired⟩ := @ready_foldl clock new [] [] events ready_new
  rw [List.nil_append] at hready
  obtain ⟨continued, hholds⟩ := @holds_flush clock _ _ _ hready.tracks
  obtain ⟨groups, current, hgrouped⟩ := hholds.grouped
  refine ⟨?_, ⟨groups, current, hgrouped.records_eq, hgrouped.fills, ?_, hgrouped.notEmpty⟩,
    hholds.short, fun lines chunk hchunk => length_round_lt clock lines hchunk, ?_⟩
  · have hflatten := hgrouped.flatten_eq
    rw [List.append_nil] at hflatten
    exact hflatten
  · have hopen := hgrouped.flatten_current
    rw [List.append_nil] at hopen
    exact hopen
  · rintro a c b hc hs hidle ⟨j, hlow, hhigh⟩
    obtain ⟨place, -, hwritten, hcut⟩ := hholds.cuts j
    have hnewline : 10 ∉ c := hc.notMem_of_lt (by omega) (by decide)
    rw [run, ← hwritten] at hlow hhigh
    have hinside := inside_of_cut hs hnewline hlow hhigh
    rcases hcut with hmem | hno
    · rcases List.mem_cons.mp hmem with rfl | hmem
      · have hlength := congrArg List.length hs
        rw [List.length_append, List.length_append] at hlength
        omega
      · have hplace := hfired hmem
        rw [List.append_nil] at hplace
        obtain ⟨before, after, hevents, hstart⟩ := exists_of_mem_firings hplace
        rw [List.length_nil, Nat.zero_add] at hstart
        exact hidle before after hevents (hstart ▸ hinside)
    · refine hno [] ⟨a, c, b, hc, ?_, hinside⟩
      rw [List.append_nil, hs]

/-- A timer that fires between the two bytes of a character. -/
def silentEvents : List Event := [.chunk [0xC3], .idle, .chunk [0xA9]]

theorem timestampLines_splits :
    IsCharacter [0xC3, 0xA9] ∧ stream silentEvents = [] ++ ([0xC3, 0xA9] ++ []) ∧
      Splits ((run (fun _ => "2026-10-07T18:36:05.123Z") silentEvents).flush
        fun _ => "2026-10-07T18:36:05.123Z").payloads [] [0xC3, 0xA9] := by
  refine ⟨⟨0xE9, by decide, by decide⟩, rfl, ?_⟩
  have hpayloads : ((run (fun _ => "2026-10-07T18:36:05.123Z") silentEvents).flush
      fun _ => "2026-10-07T18:36:05.123Z").payloads = [[0xC3], [0xA9]] := by
    simp [run, silentEvents, step, transform, idle, flush, loop, round, taken, filled, begin,
      new, emitLine, payloads, maxLineBytes]
  rw [hpayloads]
  exact ⟨1, by decide, by decide⟩

end TimestampLines

end Controller
end OpenstackPlatform
