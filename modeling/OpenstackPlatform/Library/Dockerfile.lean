import OpenstackPlatform.Library.JsonText

/-!
# Dockerfiles, line by line

A Dockerfile without line continuations is read one line at a time.  A line is a keyword and what
follows its first blank, and the keyword says how that is read: `RUN`, `CMD` and `ENTRYPOINT` take a
JSON array of strings, `WORKDIR` takes the rest of the line as one argument, and the other
instructions take words.

* `Instruction`, `Instruction.text`: one instruction and its line.
* `readLine`, `read`: the instructions of a text.
* `readLine_text`, `read_join`: well-formed instructions are read back from their lines, when no line
  end is inside one.
* `notMem_of_read`: no line end is inside an argument that was read.
-/

namespace OpenstackPlatform
namespace Library
namespace Dockerfile

open JsonText

/-! ## Instructions -/

/-- One instruction, by the form of its arguments. -/
inductive Instruction where
  /-- words between blanks -/
  | words (keyword : Text) (arguments : List Text)
  /-- the rest of the line -/
  | line (keyword : Text) (argument : Text)
  /-- a JSON array of strings -/
  | exec (keyword : Text) (command : List Text)
  deriving DecidableEq, Repr

/-- The keywords that take a JSON array. -/
def execKeywords : List Text := ["RUN", "CMD", "ENTRYPOINT"].map Text.ofString

/-- The keywords that take the rest of the line. -/
def lineKeywords : List Text := ["WORKDIR"].map Text.ofString

/-- The array of strings that a command is written as. -/
def commandValue (command : List Text) : Value := .arr (command.map .str)

/-- The line of an instruction. -/
def Instruction.text : Instruction → Text
  | .words keyword arguments => keyword ++ 32 :: List.intercalate [32] arguments
  | .line keyword argument => keyword ++ 32 :: argument
  | .exec keyword command => keyword ++ 32 :: dump (commandValue command)

/-! ## The reader -/

/-- The text of a JSON string. -/
def stringText : Value → Option Text
  | .str t => some t
  | _ => none

/-- The command that a JSON array of strings stands for. -/
def readCommand (argument : Text) : Option (List Text) :=
  match loads argument with
  | some (.arr items) => items.mapM stringText
  | _ => none

/-- The arguments of a keyword.  A command that is no array is one for the shell. -/
def readArguments (keyword argument : Text) : Instruction :=
  if execKeywords.contains keyword then
    match readCommand argument with
    | some command => .exec keyword command
    | none => .line keyword argument
  else if lineKeywords.contains keyword then .line keyword argument
  else .words keyword ((argument.splitOn 32).filter fun w => w != [])

/-- The instruction of a line. -/
def readLine (t : Text) : Option Instruction :=
  match t.dropWhile fun c => c != 32 with
  | [] => none
  | _ :: argument => some (readArguments (t.takeWhile fun c => c != 32) argument)

/-- The instructions of a text; empty lines are ignored. -/
def read (t : Text) : Option (List Instruction) :=
  ((t.splitOn 10).filter fun l => l != []).mapM readLine

/-! ## Reading back -/

/-- The instruction has the form of its keyword, and its words are words. -/
inductive Instruction.WellFormed : Instruction → Prop where
  | words {keyword : Text} {arguments : List Text} (hblank : 32 ∉ keyword)
      (hexec : keyword ∉ execKeywords) (hline : keyword ∉ lineKeywords) (hne : arguments ≠ [])
      (hwords : ∀ w ∈ arguments, w ≠ [] ∧ 32 ∉ w) : WellFormed (.words keyword arguments)
  | line {keyword argument : Text} (hline : keyword ∈ lineKeywords) :
      WellFormed (.line keyword argument)
  | exec {keyword : Text} {command : List Text} (hexec : keyword ∈ execKeywords)
      (hscalar : ∀ t ∈ command, t.all Text.isScalar = true) : WellFormed (.exec keyword command)

variable {keyword : Text}

theorem blank_notMem_of_exec (h : keyword ∈ execKeywords) : 32 ∉ keyword := by
  have hall : ∀ k ∈ execKeywords, 32 ∉ k := by decide
  exact hall keyword h

theorem blank_notMem_of_line (h : keyword ∈ lineKeywords) : 32 ∉ keyword := by
  have hall : ∀ k ∈ lineKeywords, 32 ∉ k := by decide
  exact hall keyword h

theorem notMem_exec_of_line (h : keyword ∈ lineKeywords) : keyword ∉ execKeywords := by
  have hall : ∀ k ∈ lineKeywords, k ∉ execKeywords := by decide
  exact hall keyword h

/-- A line is a keyword without blanks and what follows its first blank. -/
theorem readLine_append (h : 32 ∉ keyword) (argument : Text) :
    readLine (keyword ++ 32 :: argument) = some (readArguments keyword argument) := by
  have hkeyword : ∀ c ∈ keyword, (c != 32) = true := by
    intro c hc
    rw [bne_iff_ne]
    rintro rfl
    exact h hc
  have htake : (keyword ++ 32 :: argument).takeWhile (fun c => c != 32) = keyword := by
    rw [List.takeWhile_append_of_pos hkeyword]
    simp
  have hdrop : (keyword ++ 32 :: argument).dropWhile (fun c => c != 32) = 32 :: argument := by
    rw [List.dropWhile_append_of_pos hkeyword]
    simp
  rw [readLine, htake, hdrop]

theorem plainItems_strings : ∀ {texts : List Text},
    (∀ t ∈ texts, t.all Text.isScalar = true) → PlainItems (texts.map .str)
  | [], _ => trivial
  | t :: _, h =>
    ⟨h t List.mem_cons_self, plainItems_strings fun s hs => h s (List.mem_cons_of_mem _ hs)⟩

theorem mapM_stringText (command : List Text) :
    (command.map Value.str).mapM stringText = some command := by
  induction command with
  | nil => rfl
  | cons t command ih =>
    rw [List.map_cons, List.mapM_cons, ih]
    rfl

/-- A command is read back from its array. -/
theorem readCommand_dump {command : List Text} (h : ∀ t ∈ command, t.all Text.isScalar = true) :
    readCommand (dump (commandValue command)) = some command := by
  have hplain : Plain (commandValue command) := plainItems_strings h
  rw [readCommand, loads_dump hplain]
  exact mapM_stringText command

/-- **A well-formed instruction is read back from its line.** -/
theorem readLine_text {i : Instruction} (h : i.WellFormed) : readLine i.text = some i := by
  cases h with
  | @words keyword arguments hblank hexec hline hne hwords =>
    have hsplit : (List.intercalate [32] arguments).splitOn 32 = arguments :=
      List.splitOn_intercalate 32 (fun w hw => (hwords w hw).2) hne
    have hfilter : arguments.filter (fun w => w != []) = arguments := by
      rw [List.filter_eq_self]
      intro w hw
      simpa using (hwords w hw).1
    rw [Instruction.text, readLine_append hblank, readArguments,
      if_neg (by simpa using hexec), if_neg (by simpa using hline), hsplit, hfilter]
  | @line keyword argument hline =>
    have hexec := notMem_exec_of_line hline
    rw [Instruction.text, readLine_append (blank_notMem_of_line hline), readArguments,
      if_neg (by simpa using hexec), if_pos (by simpa using hline)]
  | @exec keyword command hexec hscalar =>
    rw [Instruction.text, readLine_append (blank_notMem_of_exec hexec), readArguments,
      if_pos (by simpa using hexec), readCommand_dump hscalar]

theorem text_ne_nil (i : Instruction) : i.text ≠ [] := by
  cases i <;> simp [Instruction.text]

/-- **Well-formed instructions are read back from their lines**, when no line end is inside one. -/
theorem read_join {is : List Instruction} (hwf : ∀ i ∈ is, i.WellFormed)
    (hline : ∀ i ∈ is, 10 ∉ i.text) :
    read (List.intercalate [10] (is.map Instruction.text ++ [[]])) = some is := by
  have hsplit : (List.intercalate [10] (is.map Instruction.text ++ [[]])).splitOn 10 =
      is.map Instruction.text ++ [[]] := by
    refine List.splitOn_intercalate 10 (fun l hl => ?_) (by simp)
    obtain hl | hl := List.mem_append.mp hl
    · obtain ⟨i, hi, rfl⟩ := List.mem_map.mp hl
      exact hline i hi
    · rw [List.mem_singleton.mp hl]
      exact List.not_mem_nil
  have hfilter : (is.map Instruction.text).filter (fun l => l != []) = is.map Instruction.text := by
    rw [List.filter_eq_self]
    intro l hl
    obtain ⟨i, -, rfl⟩ := List.mem_map.mp hl
    simpa using text_ne_nil i
  have hread : ∀ {is : List Instruction}, (∀ i ∈ is, i.WellFormed) →
      (is.map Instruction.text).mapM readLine = some is := by
    intro is hwf
    induction is with
    | nil => rfl
    | cons i is ih =>
      rw [List.map_cons, List.mapM_cons, readLine_text (hwf i List.mem_cons_self),
        ih fun j hj => hwf j (List.mem_cons_of_mem _ hj)]
      rfl
  rw [read, hsplit, List.filter_append, hfilter, List.filter_cons_of_neg (by simp),
    List.filter_nil, List.append_nil]
  exact hread hwf

/-! ## What is read -/

theorem exists_line_of_mem_mapM : ∀ {ls : List Text} {is : List Instruction},
    ls.mapM readLine = some is → ∀ i ∈ is, ∃ l ∈ ls, readLine l = some i
  | [], is, h, i, hi => by
    rw [List.mapM_nil] at h
    cases h
    cases hi
  | l :: ls, is, h, i, hi => by
    rw [List.mapM_cons] at h
    obtain ⟨j, hj, h⟩ := Option.bind_eq_some_iff.mp h
    obtain ⟨js, hjs, h⟩ := Option.bind_eq_some_iff.mp h
    cases h
    obtain rfl | hi := List.mem_cons.mp hi
    · exact ⟨l, List.mem_cons_self, hj⟩
    · obtain ⟨l', hl', hread⟩ := exists_line_of_mem_mapM hjs i hi
      exact ⟨l', List.mem_cons_of_mem _ hl', hread⟩

/-- The argument of an instruction that takes the rest of its line is part of the line. -/
theorem suffix_of_readLine {l argument : Text} (h : readLine l = some (.line keyword argument)) :
    argument <:+ l := by
  rw [readLine] at h
  split at h
  · cases h
  · rename_i c rest hdrop
    have hargument : rest = argument := by
      have h := Option.some.inj h
      rw [readArguments] at h
      split at h
      · split at h
        · cases h
        · exact (Instruction.line.inj h).2
      · split at h
        · exact (Instruction.line.inj h).2
        · cases h
    rw [← hargument]
    refine List.IsSuffix.trans ⟨[c], rfl⟩ ?_
    rw [List.singleton_append, ← hdrop]
    exact List.dropWhile_suffix _

/-- **No line end is inside an argument that was read as the rest of a line.** -/
theorem notMem_of_read {t : Text} {is : List Instruction} (h : read t = some is)
    {argument : Text} (hi : .line keyword argument ∈ is) : 10 ∉ argument := by
  obtain ⟨l, hl, hread⟩ := exists_line_of_mem_mapM h _ hi
  intro hmem
  exact notMem_of_mem_splitOn (List.mem_of_mem_filter hl) ((suffix_of_readLine hread).subset hmem)

end Dockerfile
end Library
end OpenstackPlatform
