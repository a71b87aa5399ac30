import OpenstackPlatform.Library.TextLines
import OpenstackPlatform.Library.Utf8Replace

/-!
# The tail of a build log

`tail_file` of `log_service.py` reads a captured log backwards in blocks, until it has more line
feeds than lines are asked for, and cuts the decoded text at line breaks of any kind.  The file does
not change while it is read.

* `readBack`, `tailFile`: the code.
* `readBack_suffix`: what the blocks are, and when reading stops.
* `tailFile_eq`: the result is the last lines of the whole file.
-/

namespace OpenstackPlatform
namespace Controller

open Library Library.Utf8Replace

namespace LogTail

/-! ## The code -/

/-- A log on disk. -/
structure LogFile where
  isRegular : Bool
  content : List UInt8

/-- `65_536` -/
def blockBytes : Nat := 65536

/-- The blocks of `tail_file`, the one at the end of the file first. -/
def readBack (content : List UInt8) (lines position : Nat) (chunks : List (List UInt8))
    (newlines : Nat) : List (List UInt8) :=
  if position ≠ 0 ∧ newlines ≤ lines then
    let amount := min blockBytes position
    let chunk := (content.drop (position - amount)).take amount
    readBack content lines (position - amount) (chunks ++ [chunk]) (newlines + chunk.count 10)
  else chunks
termination_by position
decreasing_by
  have : 0 < min blockBytes position := by
    rw [blockBytes]
    omega
  omega

/-- `tail_file` -/
def tailFile (file : LogFile) (lines maximumBytes : Nat) : Except String Text :=
  if !file.isRegular || maximumBytes < file.content.length then
    .error "accepted build log is not a bounded direct file"
  else
    let chunks := readBack file.content lines file.content.length [] 0
    .ok (List.intercalate [10]
      (Text.lastLines lines (Text.splitLines (decodeReplace chunks.reverse.flatten))))

/-! ## The blocks -/

/-- The blocks are the end of the file: all of it, or more line feeds than lines. -/
theorem readBack_suffix {content : List UInt8} {lines position : Nat} {chunks : List (List UInt8)}
    {newlines : Nat} (hchunks : chunks.reverse.flatten = content.drop position)
    (hnewlines : newlines = (content.drop position).count 10) :
    ∃ start, (readBack content lines position chunks newlines).reverse.flatten =
        content.drop start ∧ (start = 0 ∨ lines < (content.drop start).count 10) := by
  fun_induction readBack content lines position chunks newlines with
  | case1 position chunks newlines h amount chunk ih =>
    have hsplit : content.drop (position - amount) = chunk ++ content.drop position := by
      have hposition : position = position - amount + amount := by omega
      conv_rhs => rw [hposition, ← List.drop_drop]
      exact (List.take_append_drop amount _).symm
    refine ih ?_ ?_
    · rw [List.reverse_append, List.reverse_singleton, List.singleton_append, List.flatten_cons,
        hchunks, hsplit]
    · rw [hsplit, List.count_append, hnewlines, Nat.add_comm]
  | case2 position chunks newlines h =>
    refine ⟨position, hchunks, ?_⟩
    rw [← hnewlines]
    omega

/-! ## The last lines -/

/-- What stands before a line feed does not matter when enough line feeds follow it. -/
theorem lastLines_newline {lines : Nat} (hlines : 0 < lines) {rest : List UInt8}
    (h : lines ≤ rest.count 10) (before : List UInt8) :
    Text.lastLines lines (Text.splitLines (decodeReplace (before ++ 10 :: rest))) =
      Text.lastLines lines (Text.splitLines (decodeReplace rest)) := by
  have hlength : lines ≤ (Text.splitLines (decodeReplace rest)).length :=
    le_trans h (le_trans (count_le_finish none rest) (Text.count_le_length_splitLines _))
  rw [decodeReplace_newline, Text.splitLines_append, Text.lastLines_append hlength hlines _]

/-- The last lines of a text are those of its end when the end has more line feeds than lines. -/
theorem lastLines_drop {content : List UInt8} {lines start : Nat} (hlines : 0 < lines)
    (h : lines < (content.drop start).count 10) :
    Text.lastLines lines (Text.splitLines (decodeReplace (content.drop start))) =
      Text.lastLines lines (Text.splitLines (decodeReplace content)) := by
  -- only the text before the first line feed of the end may differ
  obtain ⟨cut, rest, hcut, hnone⟩ :=
    List.eq_append_cons_of_mem (List.count_pos_iff.mp (Nat.zero_lt_of_lt h))
  have hrest : lines ≤ rest.count 10 := by
    rw [hcut, List.count_append, List.count_eq_zero_of_not_mem hnone, List.count_cons_self] at h
    omega
  have hcontent : content = content.take start ++ cut ++ 10 :: rest := by
    rw [List.append_assoc, ← hcut, List.take_append_drop]
  rw [hcut, lastLines_newline hlines hrest]
  conv_rhs => rw [hcontent]
  rw [lastLines_newline hlines hrest]

/-! ## The result -/

/-- `tail_file` gives the last lines of the whole file, decoded.  It decodes only the blocks that it
has read from the end; they may begin within a character, but not within the lines that it gives. -/
theorem tailFile_eq (file : LogFile) (lines maximumBytes : Nat) (hregular : file.isRegular = true)
    (hbound : file.content.length ≤ maximumBytes) (hlines : 0 < lines) :
    tailFile file lines maximumBytes = .ok (List.intercalate [10]
      (Text.lastLines lines (Text.splitLines (decodeReplace file.content)))) := by
  have hbounded : ¬ (!file.isRegular || decide (maximumBytes < file.content.length)) = true := by
    rw [hregular]
    simp only [Bool.not_true, Bool.false_or, decide_eq_true_eq]
    omega
  obtain ⟨start, hchunks, hstop⟩ : ∃ start,
      (readBack file.content lines file.content.length [] 0).reverse.flatten =
        file.content.drop start ∧ (start = 0 ∨ lines < (file.content.drop start).count 10) :=
    readBack_suffix (by rw [List.drop_length]; rfl) (by rw [List.drop_length]; rfl)
  rw [tailFile, if_neg hbounded]
  simp only [hchunks]
  rcases hstop with rfl | hstop
  · rw [List.drop_zero]
  · rw [lastLines_drop hlines hstop]

/-- Two lines of a log that starts in the middle of a character and ends its lines with returns, and
the last line of a log of more than one block. -/
theorem tailFile_eq_returns :
    tailFile ⟨true, [0x82, 97, 13, 10, 98, 10, 99]⟩ 2 4096 = .ok [98, 10, 99] ∧
    tailFile ⟨true, List.replicate 70000 97 ++ [10, 98, 10, 99]⟩ 1 100000 = .ok [99] := by
  refine ⟨tailFile_eq ⟨true, [0x82, 97, 13, 10, 98, 10, 99]⟩ 2 4096 rfl (by decide) (by decide), ?_⟩
  have hlength : (List.replicate 70000 (97 : UInt8) ++ [10, 98, 10, 99]).length ≤ 100000 := by
    rw [List.length_append, List.length_replicate]
    decide
  have hdrop : (List.replicate 70000 (97 : UInt8) ++ [10, 98, 10, 99]).drop 70000 =
      [10, 98, 10, 99] := List.drop_left' List.length_replicate
  have hlast := lastLines_drop Nat.one_pos (hdrop ▸ (by decide :
    1 < ([10, 98, 10, 99] : List UInt8).count 10))
  rw [tailFile_eq ⟨true, List.replicate 70000 97 ++ [10, 98, 10, 99]⟩ 1 100000 rfl
    hlength (by decide), ← hlast, hdrop]
  rfl

end LogTail

end Controller
end OpenstackPlatform
