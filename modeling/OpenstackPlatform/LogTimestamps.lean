import Mathlib.Data.List.TakeWhile
import OpenstackPlatform.Library.Records

/-!
# Build logs with timestamps

`TimestampedBuildLog` puts a timestamp before each record of a build's output.  It gets the output
in chunks of any size, writes partial lines at once, and stops at the size of the file.

* `BuildLog`, `record`, `round`, `writeLoop`, `write`, `close`: the writer.
* `records`, `layout`: what a stream looks like in the file, with a cell for each byte of it.
* `Tracks`, `tracks_round`, `tracks_writeLoop`: the writer has written the layout of what it got.
* `buildLog_layout`: the chunks do not matter, nothing is lost before the limit.
-/

namespace OpenstackPlatform

open Library

namespace LogTimestamps

/-! ## The writer -/

/-- `MAX_LINE_BYTES` -/
def maxLineBytes : Nat := 8192

/-- The bytes of `datetime.now(UTC).isoformat(timespec="milliseconds")` with `Z` for the zone. -/
abbrev Stamp := Fin 24 → UInt8

/-- `TimestampedBuildLog`, with the number of times it has read the clock. -/
structure BuildLog where
  destination : List UInt8
  maximum : Nat
  lineBytes : Nat
  continued : Bool
  closed : Bool
  readings : Nat
  lineBytes_lt : lineBytes < maxLineBytes

namespace BuildLog

/-- `__init__`, on a file with some contents. -/
def new (destination : List UInt8) (maximum : Nat) : BuildLog where
  destination := destination
  maximum := maximum
  lineBytes := 0
  continued := false
  closed := false
  readings := 0
  lineBytes_lt := by decide

/-- `tell` -/
def tell (log : BuildLog) : Nat := log.destination.length

/-- `_record` -/
def record (log : BuildLog) (data : List UInt8) : BuildLog :=
  let room := log.maximum - log.tell
  if room ≠ 0 then { log with destination := log.destination ++ data.take room } else log

/-- A timestamp and a blank before a new record. -/
def stamp (clock : Nat → Stamp) (log : BuildLog) : BuildLog :=
  { log.record (List.ofFn (clock log.readings) ++ [32]) with readings := log.readings + 1 }

/-- How much of the data a round takes before a newline, or before the record is full. -/
def taken (log : BuildLog) (data : List UInt8) : Nat :=
  min (data.takeWhile (· != 10)).length (maxLineBytes - log.lineBytes)

theorem taken_le (log : BuildLog) (data : List UInt8) :
    log.lineBytes + log.taken data ≤ maxLineBytes := by
  have hlt := log.lineBytes_lt
  have hle : log.taken data ≤ maxLineBytes - log.lineBytes := Nat.min_le_right _ _
  omega

/-- The first part of a round: a timestamp before a new record, and what the round takes. -/
def begin (clock : Nat → Stamp) (log : BuildLog) (data : List UInt8) : BuildLog :=
  if log.taken data ≠ 0 ∨ log.continued = false then
    (if log.lineBytes = 0 then log.stamp clock else log).record (data.take (log.taken data))
  else log

/-- One round of the loop of `write` on the data that is left: what it takes of them, and the
data after that. -/
def round (clock : Nat → Stamp) (log : BuildLog) (data : List UInt8) : BuildLog × List UInt8 :=
  let begun := log.begin clock data
  let filled := log.lineBytes + log.taken data
  let rest := data.drop (log.taken data)
  -- the offset is that of the newline
  if rest.head? = some 10 then
    ({ (if filled ≠ 0 ∨ log.continued = false then begun.record [10] else begun) with
      lineBytes := 0, continued := false, lineBytes_lt := by decide }, rest.tail)
  else if h : filled = maxLineBytes then
    ({ begun.record [10] with lineBytes := 0, continued := true, lineBytes_lt := by decide }, rest)
  else
    ({ begun with
      lineBytes := filled
      lineBytes_lt := Nat.lt_of_le_of_ne (log.taken_le data) h }, rest)

/-- Every round takes something. -/
theorem length_round_lt (clock : Nat → Stamp) (log : BuildLog) {data : List UInt8}
    (h : data ≠ []) : (round clock log data).2.length < data.length := by
  have hlt := log.lineBytes_lt
  have hrest : (data.drop (log.taken data)).length = data.length - log.taken data :=
    List.length_drop
  have hpos : 0 < data.length := List.length_pos_of_ne_nil h
  by_cases hhead : (data.drop (log.taken data)).head? = some 10
  · have hround : (round clock log data).2 = (data.drop (log.taken data)).tail := by
      unfold round
      simp only [hhead, if_true]
    rw [hround, List.length_tail, hrest]
    omega
  · have hround : (round clock log data).2 = data.drop (log.taken data) := by
      unfold round
      simp only [hhead, if_false]
      split
      · rfl
      · rfl
    have hne : log.taken data ≠ 0 := by
      intro hzero
      rw [hzero, List.drop_zero] at hhead
      obtain ⟨b, rest, rfl⟩ := List.exists_cons_of_ne_nil h
      have hb : b ≠ 10 := fun hb => hhead (by rw [hb]; rfl)
      rw [taken, List.takeWhile_cons_of_pos (by simpa using hb), List.length_cons] at hzero
      omega
    rw [hround, hrest]
    omega

/-- The loop of `write`. -/
def writeLoop (clock : Nat → Stamp) (log : BuildLog) (data : List UInt8) : BuildLog :=
  if _ : data = [] then log
  else writeLoop clock (round clock log data).1 (round clock log data).2
termination_by data.length
decreasing_by exact length_round_lt clock log (by assumption)

/-- `write` -/
def write (clock : Nat → Stamp) (log : BuildLog) (data : List UInt8) : BuildLog × Nat :=
  (writeLoop clock log data, data.length)

/-- Several writes, one after another. -/
def writeAll (clock : Nat → Stamp) (log : BuildLog) (chunks : List (List UInt8)) : BuildLog :=
  chunks.foldl (fun log chunk => (log.write clock chunk).1) log

/-- `close` -/
def close (log : BuildLog) : BuildLog :=
  if log.closed = false ∧ log.lineBytes ≠ 0 then
    { log.record [10] with lineBytes := 0, closed := true, lineBytes_lt := by decide }
  else { log with closed := true }

end BuildLog

/-! ## The layout of a stream -/

/-- A record: its payload, and whether a newline ends it. -/
structure Record where
  payload : List UInt8
  ended : Bool
  deriving DecidableEq

/-- The records of a stream that have ended: those of its lines, and the full ones of the rest. -/
def endedRecords (stream : List UInt8) : List (List UInt8) :=
  (splitEnds 10 stream).1.flatMap (lineRecords maxLineBytes) ++
    fullRecords maxLineBytes (splitEnds 10 stream).2

/-- The payload after them, for which a newline is awaited. -/
def openPayload (stream : List UInt8) : List UInt8 :=
  lastRecord maxLineBytes (splitEnds 10 stream).2

/-- The records of a stream; the last one is open until the log is closed. -/
def records (closed : Bool) (stream : List UInt8) : List Record :=
  (endedRecords stream).map (fun payload => ⟨payload, true⟩) ++
    if openPayload stream = [] then [] else [⟨openPayload stream, closed⟩]

/-- What stands at a place of the file: a byte of a timestamp, or a byte that does not depend on
the clock. -/
inductive Cell where
  | stamp (reading : Nat) (index : Fin 24)
  | byte (value : UInt8)

/-- The byte of a cell. -/
def Cell.fill (clock : Nat → Stamp) : Cell → UInt8
  | .stamp reading index => clock reading index
  | .byte value => value

/-- The timestamp of a record, and a blank. -/
def stampCells (reading : Nat) : List Cell := List.ofFn (Cell.stamp reading) ++ [.byte 32]

/-- Records in the file, from a reading of the clock on. -/
def cells : Nat → List Record → List Cell
  | _, [] => []
  | reading, record :: rest =>
    stampCells reading ++ record.payload.map .byte ++ (if record.ended then [.byte 10] else []) ++
      cells (reading + 1) rest

/-- The file that a stream would make without a limit. -/
def layout (closed : Bool) (stream : List UInt8) : List Cell := cells 0 (records closed stream)

theorem cells_append (reading : Nat) (rs rs' : List Record) :
    cells reading (rs ++ rs') = cells reading rs ++ cells (reading + rs.length) rs' := by
  induction rs generalizing reading with
  | nil => rfl
  | cons r rs ih =>
    rw [List.cons_append, cells, cells, ih, List.length_cons, Nat.add_assoc reading,
      Nat.add_comm 1, List.append_assoc, List.append_assoc, List.append_assoc, List.append_assoc,
      List.append_assoc]

theorem map_fill_stampCells (clock : Nat → Stamp) (reading : Nat) :
    (stampCells reading).map (Cell.fill clock) = List.ofFn (clock reading) ++ [32] := by
  rw [stampCells, List.map_append, List.map_ofFn]
  rfl

theorem map_fill_byte (clock : Nat → Stamp) (data : List UInt8) :
    (data.map Cell.byte).map (Cell.fill clock) = data := by
  rw [List.map_map]
  exact List.map_id _

/-! ## What has been written -/

/-- Cells that the log has written, up to its limit. -/
structure Written (clock : Nat → Stamp) (initial : List UInt8) (maximum : Nat) (log : BuildLog)
    (written : List Cell) : Prop where
  destination : log.destination =
    initial ++ (written.take (maximum - initial.length)).map (Cell.fill clock)
  maximum : log.maximum = maximum

section Writing

variable {clock : Nat → Stamp} {initial : List UInt8} {maximum : Nat} {log : BuildLog}
  {written : List Cell}

/-- Cells are appended; what is over the limit is dropped. -/
theorem Written.record (h : Written clock initial maximum log written) (new : List Cell) :
    Written clock initial maximum (log.record (new.map (Cell.fill clock))) (written ++ new) := by
  have hroom : log.maximum - log.tell =
      maximum - initial.length - (written.take (maximum - initial.length)).length := by
    rw [BuildLog.tell, h.destination, h.maximum, List.length_append, List.length_map]
    omega
  have htake : (written.take (maximum - initial.length)) ++
      new.take (maximum - initial.length - (written.take (maximum - initial.length)).length) =
        (written ++ new).take (maximum - initial.length) := by
    rw [List.take_append, List.length_take]
    congr 2
    omega
  unfold BuildLog.record
  rw [hroom]
  by_cases hzero :
      maximum - initial.length - (written.take (maximum - initial.length)).length = 0
  · rw [if_neg (not_not_intro hzero)]
    rw [hzero, List.take_zero, List.append_nil] at htake
    exact ⟨by rw [h.destination, htake], h.maximum⟩
  · rw [if_pos hzero]
    refine ⟨?_, h.maximum⟩
    show log.destination ++ (new.map (Cell.fill clock)).take _ = _
    rw [← htake, h.destination, List.map_append, List.append_assoc, ← List.map_take]

theorem Written.stamp (h : Written clock initial maximum log written) :
    Written clock initial maximum (log.stamp clock) (written ++ stampCells log.readings) := by
  have hrecord := h.record (stampCells log.readings)
  rw [map_fill_stampCells] at hrecord
  exact ⟨hrecord.destination, hrecord.maximum⟩

theorem Written.bytes (h : Written clock initial maximum log written) (data : List UInt8) :
    Written clock initial maximum (log.record data) (written ++ data.map .byte) := by
  have hrecord := h.record (data.map .byte)
  rw [map_fill_byte] at hrecord
  exact hrecord

/-- The file never grows over its limit. -/
theorem Written.length_le (h : Written clock initial maximum log written) :
    log.destination.length ≤ max maximum initial.length := by
  rw [h.destination, List.length_append, List.length_map, List.length_take]
  omega

end Writing

/-! ## The stream behind a log -/

/-- The cells of an open payload. -/
def openCells (reading : Nat) (payload : List UInt8) : List Cell :=
  if payload = [] then [] else stampCells reading ++ payload.map .byte

/-- The cells of records that have ended. -/
def endedCells (rs : List (List UInt8)) : List Cell :=
  cells 0 (rs.map fun payload => ⟨payload, true⟩)

theorem endedCells_concat (rs : List (List UInt8)) (payload : List UInt8) :
    endedCells (rs ++ [payload]) =
      endedCells rs ++ (stampCells rs.length ++ payload.map .byte ++ [.byte 10]) := by
  rw [endedCells, List.map_append, cells_append, List.length_map, Nat.zero_add]
  simp [cells, endedCells]

theorem layout_eq (stream : List UInt8) :
    layout false stream = endedCells (endedRecords stream) ++
      openCells (endedRecords stream).length (openPayload stream) := by
  rw [layout, records, cells_append, List.length_map, Nat.zero_add, openCells]
  split
  · rfl
  · simp [cells, endedCells]

theorem layout_closed (stream : List UInt8) :
    layout true stream =
      layout false stream ++ if openPayload stream = [] then [] else [.byte 10] := by
  rw [layout_eq, layout, records, cells_append, List.length_map, Nat.zero_add, openCells]
  split
  · simp [cells, endedCells]
  · simp [cells, endedCells]

/-- The log has written a stream and is ready for what follows it. -/
structure Tracks (clock : Nat → Stamp) (initial : List UInt8) (maximum : Nat) (log : BuildLog)
    (stream : List UInt8) : Prop where
  written : Written clock initial maximum log (layout false stream)
  lineBytes : log.lineBytes = (openPayload stream).length
  continued : log.continued = true ↔ fullRecords maxLineBytes (splitEnds 10 stream).2 ≠ []
  readings : log.readings = (endedRecords stream).length + if openPayload stream = [] then 0 else 1
  notClosed : log.closed = false

section Round

variable {stream w : List UInt8}

/-- A block and a newline end the open record, unless nothing follows a full one. -/
theorem endedRecords_end (hw : 10 ∉ w) (h : (openPayload stream).length + w.length ≤ maxLineBytes) :
    endedRecords (stream ++ (w ++ [10])) =
      endedRecords stream ++
        if openPayload stream ++ w = [] ∧
          fullRecords maxLineBytes (splitEnds 10 stream).2 ≠ [] then []
        else [openPayload stream ++ w] := by
  rw [endedRecords, splitEnds_append_end stream hw, List.flatMap_append, List.flatMap_singleton,
    lineRecords_append (by decide) h, fullRecords_nil, List.append_nil, ← List.append_assoc]
  rfl

theorem openPayload_end (hw : 10 ∉ w) : openPayload (stream ++ (w ++ [10])) = [] := by
  rw [openPayload, splitEnds_append_end stream hw, lastRecord_nil]

/-- A block that fills the open record ends it. -/
theorem endedRecords_full (hw : 10 ∉ w)
    (h : (openPayload stream).length + w.length = maxLineBytes) :
    endedRecords (stream ++ w) = endedRecords stream ++ [openPayload stream ++ w] ∧
      openPayload (stream ++ w) = [] := by
  obtain ⟨hfull, hlast⟩ := fullRecords_append_eq (by decide) h
  constructor
  · rw [endedRecords, splitEnds_append stream hw, hfull, ← List.append_assoc]
    rfl
  · rw [openPayload, splitEnds_append stream hw, hlast]

/-- A shorter block joins the open record. -/
theorem endedRecords_open (hw : 10 ∉ w)
    (h : (openPayload stream).length + w.length < maxLineBytes) :
    endedRecords (stream ++ w) = endedRecords stream ∧
      openPayload (stream ++ w) = openPayload stream ++ w := by
  obtain ⟨hfull, hlast⟩ := fullRecords_append_lt (by decide) h
  constructor
  · rw [endedRecords, splitEnds_append stream hw, hfull]
    rfl
  · rw [openPayload, splitEnds_append stream hw, hlast]
    rfl

end Round

/-- What a round takes has no newline. -/
theorem notMem_taken (log : BuildLog) (data : List UInt8) : 10 ∉ data.take (log.taken data) :=
  notMem_take_of_le (Nat.min_le_left _ _)

theorem length_taken (log : BuildLog) (data : List UInt8) :
    (data.take (log.taken data)).length = log.taken data := by
  rw [List.length_take]
  have hle : log.taken data ≤ (data.takeWhile (· != 10)).length := Nat.min_le_left _ _
  have := (List.takeWhile_prefix (p := (· != 10)) (l := data)).length_le
  omega

@[simp] theorem record_closed (log : BuildLog) (data : List UInt8) :
    (log.record data).closed = log.closed := by
  unfold BuildLog.record
  dsimp only
  split
  · rfl
  · rfl

@[simp] theorem record_readings (log : BuildLog) (data : List UInt8) :
    (log.record data).readings = log.readings := by
  unfold BuildLog.record
  dsimp only
  split
  · rfl
  · rfl

@[simp] theorem record_continued (log : BuildLog) (data : List UInt8) :
    (log.record data).continued = log.continued := by
  unfold BuildLog.record
  dsimp only
  split
  · rfl
  · rfl

section Begin

variable {clock : Nat → Stamp} {initial : List UInt8} {maximum : Nat} {log : BuildLog}
  {stream data : List UInt8}

theorem begin_closed : (log.begin clock data).closed = log.closed := by
  unfold BuildLog.begin
  split
  · rw [record_closed]
    split
    · exact record_closed _ _
    · rfl
  · rfl

theorem begin_continued : (log.begin clock data).continued = log.continued := by
  unfold BuildLog.begin
  split
  · rw [record_continued]
    split
    · exact record_continued _ _
    · rfl
  · rfl

theorem lineBytes_eq_zero_iff (h : Tracks clock initial maximum log stream) :
    log.lineBytes = 0 ↔ openPayload stream = [] := by
  rw [h.lineBytes, List.length_eq_zero_iff]

/-- A round that takes nothing after a full record leaves the log. -/
theorem begin_eq_self (htaken : log.taken data = 0) (hcontinued : log.continued = true) :
    log.begin clock data = log := by
  unfold BuildLog.begin
  rw [if_neg]
  rintro (hne | hfalse)
  · exact hne htaken
  · rw [hcontinued] at hfalse
    cases hfalse

/-- The payload that a round adds to, with its timestamp. -/
theorem begin_written (h : Tracks clock initial maximum log stream)
    (hactive : log.lineBytes + log.taken data ≠ 0 ∨ log.continued = false) :
    Written clock initial maximum (log.begin clock data)
      (endedCells (endedRecords stream) ++ (stampCells (endedRecords stream).length ++
        (openPayload stream ++ data.take (log.taken data)).map .byte)) ∧
    (log.begin clock data).readings = (endedRecords stream).length + 1 := by
  have hreadings := h.readings
  by_cases hopen : openPayload stream = []
  · have hzero : log.lineBytes = 0 := (lineBytes_eq_zero_iff h).mpr hopen
    have hactive' : log.taken data ≠ 0 ∨ log.continued = false := by
      rwa [hzero, Nat.zero_add] at hactive
    have hwritten := h.written
    rw [layout_eq, hopen, openCells, if_pos rfl, List.append_nil] at hwritten
    rw [if_pos hopen, Nat.add_zero] at hreadings
    unfold BuildLog.begin
    rw [if_pos hactive', if_pos hzero, hopen, List.nil_append, ← List.append_assoc, ← hreadings]
    exact ⟨hwritten.stamp.bytes _, by rw [record_readings]; rfl⟩
  · have hwritten := h.written
    rw [layout_eq, openCells, if_neg hopen] at hwritten
    rw [if_neg hopen] at hreadings
    by_cases hactive' : log.taken data ≠ 0 ∨ log.continued = false
    · have hzero : ¬ log.lineBytes = 0 := fun hz => hopen ((lineBytes_eq_zero_iff h).mp hz)
      unfold BuildLog.begin
      rw [if_pos hactive', if_neg hzero, List.map_append, record_readings]
      refine ⟨?_, hreadings⟩
      simpa only [List.append_assoc] using hwritten.bytes (data.take (log.taken data))
    · have htaken : log.taken data = 0 := by tauto
      unfold BuildLog.begin
      rw [if_neg hactive', htaken, List.take_zero, List.append_nil]
      exact ⟨hwritten, hreadings⟩

/-- What a round takes of a record leaves it within its limit. -/
theorem length_openPayload_taken (h : Tracks clock initial maximum log stream)
    (data : List UInt8) :
    (openPayload stream).length + (data.take (log.taken data)).length =
      log.lineBytes + log.taken data := by
  rw [length_taken, h.lineBytes]

/-- A round that reaches a newline. -/
theorem tracks_newline (h : Tracks clock initial maximum log stream) {rest : List UInt8}
    (hrest : data.drop (log.taken data) = 10 :: rest) :
    (log.round clock data).2 = rest ∧
      Tracks clock initial maximum (log.round clock data).1
        (stream ++ (data.take (log.taken data) ++ [10])) := by
  have hw := notMem_taken log data
  have hlength := length_openPayload_taken h data
  have hround : log.round clock data =
      ({ (if log.lineBytes + log.taken data ≠ 0 ∨ log.continued = false then
          (log.begin clock data).record [10] else log.begin clock data) with
        lineBytes := 0, continued := false, lineBytes_lt := by decide }, rest) := by
    unfold BuildLog.round
    simp only [hrest, List.head?_cons, if_true, List.tail_cons]
  have hended := @endedRecords_end stream _ hw (hlength ▸ log.taken_le data)
  have hnone := @openPayload_end stream _ hw
  rw [hround]
  refine ⟨rfl, ?_⟩
  by_cases hactive : log.lineBytes + log.taken data ≠ 0 ∨ log.continued = false
  · have hnot : ¬ (openPayload stream ++ data.take (log.taken data) = [] ∧
        fullRecords maxLineBytes (splitEnds 10 stream).2 ≠ []) := by
      rintro ⟨hnil, hne⟩
      have hnil := congrArg List.length hnil
      rw [List.length_append, hlength, List.length_nil] at hnil
      rcases hactive with hactive | hactive
      · exact hactive hnil
      · rw [h.continued.mpr hne] at hactive
        cases hactive
    obtain ⟨hbegin, hreadings⟩ := begin_written h hactive
    rw [if_neg hnot] at hended
    rw [if_pos hactive]
    refine ⟨?_, ?_, ?_, ?_, ?_⟩
    · have hwritten := hbegin.bytes [10]
      rw [layout_eq, hended, hnone, openCells, if_pos rfl, List.append_nil, endedCells_concat]
      rw [List.append_assoc] at hwritten
      exact ⟨hwritten.destination, hwritten.maximum⟩
    · rw [hnone]
      rfl
    · rw [splitEnds_append_end stream hw]
      simp
    · rw [hended, hnone, if_pos rfl, List.length_append]
      show ((log.begin clock data).record [10]).readings = _
      rw [record_readings, hreadings]
      rfl
    · show ((log.begin clock data).record [10]).closed = false
      rw [record_closed, begin_closed, h.notClosed]
  · -- nothing follows a full record
    have hcontinued : log.continued = true := by
      cases hc : log.continued with
      | true => rfl
      | false => exact absurd (.inr hc) hactive
    have hopen : openPayload stream = [] := (lineBytes_eq_zero_iff h).mp (by omega)
    have hyes : openPayload stream ++ data.take (log.taken data) = [] ∧
        fullRecords maxLineBytes (splitEnds 10 stream).2 ≠ [] := by
      refine ⟨?_, h.continued.mp hcontinued⟩
      rw [← List.length_eq_zero_iff, List.length_append, hlength]
      omega
    have hwritten := h.written
    have hreadings := h.readings
    rw [if_pos hyes, List.append_nil] at hended
    rw [layout_eq, hopen] at hwritten
    rw [hopen, if_pos rfl] at hreadings
    rw [if_neg hactive, begin_eq_self (by omega) hcontinued]
    refine ⟨?_, ?_, ?_, ?_, h.notClosed⟩
    · rw [layout_eq, hended, hnone]
      exact ⟨hwritten.destination, hwritten.maximum⟩
    · rw [hnone]
      rfl
    · rw [splitEnds_append_end stream hw]
      simp
    · rw [hended, hnone, if_pos rfl]
      exact hreadings

/-- A round that fills the record. -/
theorem tracks_full (h : Tracks clock initial maximum log stream)
    (hhead : (data.drop (log.taken data)).head? ≠ some 10)
    (hfull : log.lineBytes + log.taken data = maxLineBytes) :
    (log.round clock data).2 = data.drop (log.taken data) ∧
      Tracks clock initial maximum (log.round clock data).1
        (stream ++ data.take (log.taken data)) := by
  have hw := notMem_taken log data
  have hlength := length_openPayload_taken h data
  rw [hfull] at hlength
  have hround : log.round clock data =
      ({ (log.begin clock data).record [10] with
        lineBytes := 0, continued := true, lineBytes_lt := by decide },
        data.drop (log.taken data)) := by
    unfold BuildLog.round
    simp only [hhead, if_false]
    rw [dif_pos hfull]
  have hne : log.lineBytes + log.taken data ≠ 0 := by
    rw [hfull]
    decide
  obtain ⟨hbegin, hreadings⟩ := begin_written h (.inl hne)
  obtain ⟨hended, hnone⟩ := endedRecords_full hw hlength
  rw [hround]
  refine ⟨rfl, ?_, ?_, ?_, ?_, ?_⟩
  · have hwritten := hbegin.bytes [10]
    rw [layout_eq, hended, hnone, openCells, if_pos rfl, List.append_nil, endedCells_concat]
    rw [List.append_assoc] at hwritten
    exact ⟨hwritten.destination, hwritten.maximum⟩
  · rw [hnone]
    rfl
  · rw [splitEnds_append stream hw, (fullRecords_append_eq (by decide) hlength).1]
    simp
  · rw [hended, hnone, if_pos rfl, List.length_append]
    show ((log.begin clock data).record [10]).readings = _
    rw [record_readings, hreadings]
    rfl
  · show ((log.begin clock data).record [10]).closed = false
    rw [record_closed, begin_closed, h.notClosed]

/-- A round that takes the last of the data. -/
theorem tracks_open (h : Tracks clock initial maximum log stream)
    (hhead : (data.drop (log.taken data)).head? ≠ some 10)
    (hfull : log.lineBytes + log.taken data ≠ maxLineBytes) (htaken : log.taken data ≠ 0) :
    (log.round clock data).2 = data.drop (log.taken data) ∧
      Tracks clock initial maximum (log.round clock data).1
        (stream ++ data.take (log.taken data)) := by
  have hw := notMem_taken log data
  have hlength := length_openPayload_taken h data
  have hlt : (openPayload stream).length + (data.take (log.taken data)).length <
      maxLineBytes := by
    rw [hlength]
    exact Nat.lt_of_le_of_ne (log.taken_le data) hfull
  have hround : log.round clock data =
      ({ log.begin clock data with
        lineBytes := log.lineBytes + log.taken data
        lineBytes_lt := Nat.lt_of_le_of_ne (log.taken_le data) hfull },
        data.drop (log.taken data)) := by
    unfold BuildLog.round
    simp only [hhead, if_false]
    rw [dif_neg hfull]
  obtain ⟨hbegin, hreadings⟩ :=
    @begin_written clock initial maximum log stream data h (.inl (by omega))
  obtain ⟨hended, hopen⟩ := endedRecords_open hw hlt
  have hne : openPayload stream ++ data.take (log.taken data) ≠ [] := by
    rw [← List.length_pos_iff, List.length_append, hlength]
    omega
  rw [hround]
  refine ⟨rfl, ?_, ?_, ?_, ?_, ?_⟩
  · rw [layout_eq, hended, hopen, openCells, if_neg hne]
    exact ⟨hbegin.destination, hbegin.maximum⟩
  · rw [hopen, List.length_append, hlength]
  · rw [splitEnds_append stream hw, (fullRecords_append_lt (by decide) hlt).1, ← h.continued]
    show (log.begin clock data).continued = true ↔ _
    rw [begin_continued]
  · rw [hended, hopen, if_neg hne]
    exact hreadings
  · show (log.begin clock data).closed = false
    rw [begin_closed, h.notClosed]

/-- A round keeps track of what it takes: up to a newline, up to a full record, or all. -/
theorem tracks_round (h : Tracks clock initial maximum log stream) (hdata : data ≠ []) :
    ∃ consumed, data = consumed ++ (log.round clock data).2 ∧
      Tracks clock initial maximum (log.round clock data).1 (stream ++ consumed) := by
  have hsplit := List.take_append_drop (log.taken data) data
  by_cases hhead : (data.drop (log.taken data)).head? = some 10
  · obtain ⟨rest, hrest⟩ : ∃ rest, data.drop (log.taken data) = 10 :: rest :=
      List.head?_eq_some_iff.mp hhead
    obtain ⟨hround, htracks⟩ := tracks_newline h hrest
    refine ⟨_, ?_, htracks⟩
    rw [hround, List.append_assoc, List.singleton_append, ← hrest, hsplit]
  by_cases hfull : log.lineBytes + log.taken data = maxLineBytes
  · obtain ⟨hround, htracks⟩ := tracks_full h hhead hfull
    exact ⟨_, by rw [hround, hsplit], htracks⟩
  · -- the round takes something, for no newline comes first
    have htaken : log.taken data ≠ 0 := by
      intro hzero
      have hlt := BuildLog.length_round_lt clock log hdata
      have hround : (log.round clock data).2 = data.drop (log.taken data) := by
        unfold BuildLog.round
        simp only [hhead, if_false]
        rw [dif_neg hfull]
      rw [hround, hzero, List.drop_zero] at hlt
      omega
    obtain ⟨hround, htracks⟩ := tracks_open h hhead hfull htaken
    exact ⟨_, by rw [hround, hsplit], htracks⟩

end Begin

/-- The loop keeps track of all its data, by induction on their length. -/
theorem tracks_writeLoop {clock : Nat → Stamp} {initial : List UInt8} {maximum : Nat}
    {log : BuildLog} {stream data : List UInt8} (h : Tracks clock initial maximum log stream) :
    Tracks clock initial maximum (log.writeLoop clock data) (stream ++ data) := by
  fun_induction BuildLog.writeLoop clock log data generalizing stream with
  | case1 log =>
    rw [List.append_nil]
    exact h
  | case2 log data hdata ih =>
    obtain ⟨consumed, hconsumed, hround⟩ := tracks_round h hdata
    have hrest := ih hround
    rw [List.append_assoc, ← hconsumed] at hrest
    exact hrest

/-- So do several writes. -/
theorem tracks_writeAll {clock : Nat → Stamp} {initial : List UInt8} {maximum : Nat}
    {chunks : List (List UInt8)} {log : BuildLog} {stream : List UInt8}
    (h : Tracks clock initial maximum log stream) :
    Tracks clock initial maximum (log.writeAll clock chunks) (stream ++ chunks.flatten) := by
  induction chunks generalizing log stream with
  | nil =>
    rw [List.flatten_nil, List.append_nil]
    exact h
  | cons chunk chunks ih =>
    have hchunk : Tracks clock initial maximum (log.writeLoop clock chunk) (stream ++ chunk) :=
      tracks_writeLoop h
    have hrest := ih hchunk
    rw [List.append_assoc] at hrest
    exact hrest

theorem tracks_new (clock : Nat → Stamp) (initial : List UInt8) (maximum : Nat) :
    Tracks clock initial maximum (.new initial maximum) [] where
  written := ⟨by simp [BuildLog.new, layout, records, endedRecords, openPayload, splitEnds, cells],
    rfl⟩
  lineBytes := by simp [BuildLog.new, openPayload, splitEnds]
  continued := by simp [BuildLog.new, splitEnds]
  readings := by simp [BuildLog.new, endedRecords, openPayload, splitEnds]
  notClosed := rfl

/-- Closing ends the open record. -/
theorem written_close {clock : Nat → Stamp} {initial : List UInt8} {maximum : Nat}
    {log : BuildLog} {stream : List UInt8} (h : Tracks clock initial maximum log stream) :
    Written clock initial maximum log.close (layout true stream) := by
  rw [layout_closed]
  unfold BuildLog.close
  by_cases hopen : openPayload stream = []
  · have hzero := (lineBytes_eq_zero_iff h).mpr hopen
    rw [if_neg fun hne => hne.2 hzero, if_pos hopen, List.append_nil]
    exact ⟨h.written.destination, h.written.maximum⟩
  · have hzero : log.lineBytes ≠ 0 := fun hz => hopen ((lineBytes_eq_zero_iff h).mp hz)
    rw [if_pos ⟨h.notClosed, hzero⟩, if_neg hopen]
    have hwritten := h.written.bytes [10]
    exact ⟨hwritten.destination, hwritten.maximum⟩

/-! ## Payloads -/

/-- The records hold the bytes of the stream, but for the newlines. -/
theorem payloads_records (closed : Bool) (stream : List UInt8) :
    (records closed stream).flatMap Record.payload = stream.filter (· ≠ 10) := by
  have hlines : ∀ ls : List (List UInt8),
      (ls.flatMap (lineRecords maxLineBytes)).flatten = ls.flatten := by
    intro ls
    induction ls with
    | nil => rfl
    | cons line ls ih =>
      rw [List.flatMap_cons, List.flatten_append, ih, flatten_lineRecords, List.flatten_cons]
  have hopen : (if openPayload stream = [] then [] else
      [(⟨openPayload stream, closed⟩ : Record)]).flatMap Record.payload = openPayload stream := by
    split
    next hnil => rw [hnil]; rfl
    next => simp
  have hended : ((endedRecords stream).map fun payload => (⟨payload, true⟩ : Record)).flatMap
      Record.payload = (endedRecords stream).flatten := by
    rw [List.flatMap_map, List.flatMap_id']
  rw [records, List.flatMap_append, hopen, hended, endedRecords, List.flatten_append, hlines,
    List.append_assoc, openPayload, flatten_fullRecords, flatten_splitEnds]

/-- No payload is longer than a line may be. -/
theorem length_payload_le {closed : Bool} {stream : List UInt8} {r : Record}
    (h : r ∈ records closed stream) : r.payload.length ≤ maxLineBytes := by
  rcases List.mem_append.mp h with h | h
  · obtain ⟨payload, hpayload, rfl⟩ := List.mem_map.mp h
    rcases List.mem_append.mp hpayload with hpayload | hpayload
    · obtain ⟨line, -, hmem⟩ := List.mem_flatMap.mp hpayload
      exact length_of_mem_lineRecords (by decide) hmem
    · exact length_of_mem_fullRecords hpayload
  · split at h
    · cases h
    · rw [List.mem_singleton.mp h]
      exact Nat.le_of_lt (length_lastRecord_lt (by decide) _)

/-- Build logs: whatever the chunks and the clock, the file is the layout of the whole stream with
the timestamps filled in, up to the limit; the layout holds the payload in order, in records that
are not too long. -/
theorem buildLog_layout (clock : Nat → Stamp) (initial : List UInt8) (maximum : Nat)
    (chunks : List (List UInt8)) :
    (((BuildLog.new initial maximum).writeAll clock chunks).destination =
        initial ++ ((layout false chunks.flatten).take (maximum - initial.length)).map
          (Cell.fill clock) ∧
      ((BuildLog.new initial maximum).writeAll clock chunks).destination.length ≤
        max maximum initial.length) ∧
    (((BuildLog.new initial maximum).writeAll clock chunks).close.destination =
        initial ++ ((layout true chunks.flatten).take (maximum - initial.length)).map
          (Cell.fill clock) ∧
      ((BuildLog.new initial maximum).writeAll clock chunks).close.destination.length ≤
        max maximum initial.length) ∧
    ∀ closed, (records closed chunks.flatten).flatMap Record.payload =
        chunks.flatten.filter (· ≠ 10) ∧
      ∀ r ∈ records closed chunks.flatten, r.payload.length ≤ maxLineBytes := by
  have htracks : Tracks clock initial maximum
      ((BuildLog.new initial maximum).writeAll clock chunks) chunks.flatten :=
    tracks_writeAll (tracks_new clock initial maximum)
  have hclose := written_close htracks
  refine ⟨⟨htracks.written.destination, htracks.written.length_le⟩,
    ⟨hclose.destination, hclose.length_le⟩, fun closed => ?_⟩
  exact ⟨payloads_records closed _, fun r hr => length_payload_le hr⟩

end LogTimestamps

end OpenstackPlatform
