import Mathlib.Data.List.Basic
import Mathlib.Logic.Function.Basic

/-!
# Updates by compare and set

Any number of callers change one atomic cell.  Each reads the cell, computes a new value, and writes
it on the condition that nobody wrote in between; a conflict is retried a bounded number of times.
The connection may break at any call, and a write whose answer was lost may still be applied later.

* `System`: what each caller computes, and how often it tries.
* `step`, `Run`: the moves of the callers, with the writes of the run, newest first.
* `Invariant`, `invariant`: every write is the computation of its caller on the value it replaced.
* `Linked.preserves`: what later writes keep of the value that a write left.
-/

namespace OpenstackPlatform
namespace Library
namespace CompareAndSet

universe u

variable {ι α ε : Type u}

/-- A cell with the number of its last write; an absent one has number zero. -/
structure Cell (α : Type u) where
  index : ℕ
  value : α

/-- Where a caller is. -/
inductive Phase (α ε : Type u) where
  /-- before reading, in an attempt -/
  | reading (attempt : ℕ)
  /-- between reading and writing -/
  | writing (attempt index : ℕ) (value : α)
  /-- returned -/
  | done (index : ℕ) (value : α)
  /-- raised, because the value does not allow the change -/
  | invalid (error : ε)
  /-- raised, after a conflict in the last attempt -/
  | exhausted
  /-- raised, because the connection broke, with the write that may still be applied -/
  | broken (request : Option (ℕ × α))

/-- The call has returned. -/
def Phase.returned : Phase α ε → Bool
  | .done _ _ => true
  | _ => false

/-- The call has raised before anything was sent, or after a conflict. -/
def Phase.refused : Phase α ε → Bool
  | .invalid _ => true
  | .exhausted => true
  | _ => false

/-- The call has raised because the connection broke. -/
def Phase.unanswered : Phase α ε → Bool
  | .broken _ => true
  | _ => false

/-- The callers. -/
structure System (ι α ε : Type u) where
  begin : ι → Except ε Unit
  compute : ι → α → Except ε α
  attempts : ι → ℕ

/-- The cell and the callers. -/
structure State (ι α ε : Type u) where
  cell : Cell α
  phases : ι → Phase α ε

/-- A write that was applied. -/
structure Write (ι α : Type u) where
  caller : ι
  before : α
  after : α

/-- What a caller, or the connection, can do.  A write gives the cell a later number. -/
inductive Move (ι : Type u) where
  | read (caller : ι)
  | readFails (caller : ι)
  | write (caller : ι) (gap : ℕ)
  | conflict (caller : ι)
  | writeFails (caller : ι)
  | late (caller : ι) (gap : ℕ)

/-- The start of a caller. -/
def System.first (system : System ι α ε) (caller : ι) : Phase α ε :=
  match system.begin caller with
  | .ok () => .reading 0
  | .error e => .invalid e

variable [DecidableEq ι]

/-- A caller goes on. -/
def State.goto (s : State ι α ε) (caller : ι) (phase : Phase α ε) : State ι α ε :=
  { s with phases := Function.update s.phases caller phase }

/-- A write is applied when nobody wrote since the read. -/
def State.apply (s : State ι α ε) (caller : ι) (index gap : ℕ) (value : α) (phase : Phase α ε) :
    Option (State ι α ε × List (Write ι α)) :=
  if s.cell.index = index then
    some ({ cell := ⟨index + gap + 1, value⟩, phases := Function.update s.phases caller phase },
      [⟨caller, s.cell.value, value⟩])
  else none

/-- One move, with the write that it applies. -/
def step (system : System ι α ε) (s : State ι α ε) :
    Move ι → Option (State ι α ε × List (Write ι α))
  | .read caller =>
    match s.phases caller with
    | .reading attempt =>
      match system.compute caller s.cell.value with
      | .ok value => some (s.goto caller (.writing attempt s.cell.index value), [])
      | .error e => some (s.goto caller (.invalid e), [])
    | _ => none
  | .readFails caller =>
    match s.phases caller with
    | .reading _ => some (s.goto caller (.broken none), [])
    | _ => none
  | .write caller gap =>
    match s.phases caller with
    | .writing _ index value =>
      s.apply caller index gap value (.done (index + gap + 1) value)
    | _ => none
  | .conflict caller =>
    match s.phases caller with
    | .writing attempt _ _ =>
      if attempt + 1 = system.attempts caller then some (s.goto caller .exhausted, [])
      else some (s.goto caller (.reading (attempt + 1)), [])
    | _ => none
  | .writeFails caller =>
    match s.phases caller with
    | .writing _ index value => some (s.goto caller (.broken (some (index, value))), [])
    | _ => none
  | .late caller gap =>
    match s.phases caller with
    | .broken (some (index, value)) => s.apply caller index gap value (.broken none)
    | _ => none

/-- The runs from a cell, with their writes, newest first. -/
inductive Run (system : System ι α ε) (cell : Cell α) :
    List (Write ι α) → State ι α ε → Prop where
  | start : Run system cell [] ⟨cell, system.first⟩
  | move {writes new : List (Write ι α)} {s s' : State ι α ε} (h : Run system cell writes s)
      (m : Move ι) (hstep : step system s m = some (s', new)) :
      Run system cell (new ++ writes) s'

/-- Some moves, with the writes before them. -/
def replay (system : System ι α ε) (s : State ι α ε) (writes : List (Write ι α)) :
    List (Move ι) → Option (State ι α ε × List (Write ι α))
  | [] => some (s, writes)
  | m :: moves =>
    match step system s m with
    | some (s', new) => replay system s' (new ++ writes) moves
    | none => none

theorem Run.replay {system : System ι α ε} {cell : Cell α} {moves : List (Move ι)}
    {writes writes' : List (Write ι α)} {s s' : State ι α ε} (h : Run system cell writes s)
    (hreplay : CompareAndSet.replay system s writes moves = some (s', writes')) :
    Run system cell writes' s' := by
  induction moves generalizing s writes with
  | nil =>
    cases hreplay
    exact h
  | cons m moves ih =>
    rw [CompareAndSet.replay] at hreplay
    split at hreplay
    · rename_i s₁ new hstep
      exact ih (h.move m hstep) hreplay
    · cases hreplay

/-! ## Writes follow each other -/

omit [DecidableEq ι] in
/-- Each write replaced the value that the one before it left. -/
def Linked (value : α) : List (Write ι α) → α → Prop
  | [], last => last = value
  | w :: writes, last => w.after = last ∧ Linked value writes w.before

omit [DecidableEq ι] in
/-- What the later writes keep, holds when the value left by a write had it. -/
theorem Linked.preserves {value last : α} {later earlier : List (Write ι α)} {w : Write ι α}
    {P : α → Prop} (h : Linked value (later ++ w :: earlier) last)
    (hkeep : ∀ w' ∈ later, P w'.before → P w'.after) (hw : P w.after) : P last := by
  induction later generalizing last with
  | nil =>
    obtain ⟨rfl, -⟩ := h
    exact hw
  | cons w' later ih =>
    obtain ⟨rfl, hlinked⟩ := h
    refine hkeep w' List.mem_cons_self ?_
    exact ih hlinked fun d hd => hkeep d (List.mem_cons_of_mem w' hd)

/-- The number of writes of a caller. -/
def writesBy (caller : ι) (writes : List (Write ι α)) : ℕ :=
  writes.countP fun w => decide (w.caller = caller)

/-! ## The invariant -/

/-- A request that may be applied was computed from the value, unless somebody wrote since. -/
def Current (system : System ι α ε) (cell : Cell α) (caller : ι) (index : ℕ) (value : α) : Prop :=
  index ≤ cell.index ∧ (cell.index = index → system.compute caller cell.value = .ok value)

/-- What the phase of a caller says of the cell and of its writes. -/
def Accounts (system : System ι α ε) (cell : Cell α) (writes : List (Write ι α)) (caller : ι) :
    Phase α ε → Prop
  | .reading _ => writesBy caller writes = 0
  | .writing _ index value => writesBy caller writes = 0 ∧ Current system cell caller index value
  | .done _ value =>
    writesBy caller writes = 1 ∧ ∃ w ∈ writes, w.caller = caller ∧ w.after = value
  | .invalid _ => writesBy caller writes = 0
  | .exhausted => writesBy caller writes = 0
  | .broken none => writesBy caller writes ≤ 1
  | .broken (some (index, value)) =>
    writesBy caller writes = 0 ∧ Current system cell caller index value

section Ends

variable {system : System ι α ε} {cell : Cell α} {writes : List (Write ι α)} {caller : ι}
  {phase : Phase α ε}

/-- A call that returned wrote once. -/
theorem Accounts.of_returned (h : Accounts system cell writes caller phase)
    (hphase : phase.returned = true) :
    writesBy caller writes = 1 ∧ ∃ w ∈ writes, w.caller = caller := by
  cases phase with
  | done _ _ =>
    obtain ⟨hone, w, hw, hcaller, -⟩ := h
    exact ⟨hone, w, hw, hcaller⟩
  | reading _ => cases hphase
  | writing _ _ _ => cases hphase
  | invalid _ => cases hphase
  | exhausted => cases hphase
  | broken _ => cases hphase

/-- A call that was refused did not write. -/
theorem Accounts.of_refused (h : Accounts system cell writes caller phase)
    (hphase : phase.refused = true) : writesBy caller writes = 0 := by
  cases phase with
  | invalid _ => exact h
  | exhausted => exact h
  | reading _ => cases hphase
  | writing _ _ _ => cases hphase
  | done _ _ => cases hphase
  | broken _ => cases hphase

/-- A call without an answer wrote at most once. -/
theorem Accounts.of_unanswered (h : Accounts system cell writes caller phase)
    (hphase : phase.unanswered = true) : writesBy caller writes ≤ 1 := by
  cases phase with
  | broken request =>
    cases request with
    | none => exact h
    | some request => exact Nat.le_trans (Nat.le_of_eq h.1) (Nat.zero_le 1)
  | reading _ => cases hphase
  | writing _ _ _ => cases hphase
  | done _ _ => cases hphase
  | invalid _ => cases hphase
  | exhausted => cases hphase

end Ends

/-- What holds of every run. -/
structure Invariant (system : System ι α ε) (cell : Cell α) (writes : List (Write ι α))
    (s : State ι α ε) : Prop where
  linked : Linked cell.value writes s.cell.value
  computed : ∀ w ∈ writes, system.compute w.caller w.before = .ok w.after
  accounts : ∀ caller, Accounts system s.cell writes caller (s.phases caller)

variable {system : System ι α ε} {cell : Cell α} {writes : List (Write ι α)} {s : State ι α ε}

/-- A caller goes on without a write. -/
theorem Invariant.goto (h : Invariant system cell writes s) {caller : ι} {phase : Phase α ε}
    (hphase : Accounts system s.cell writes caller phase) :
    Invariant system cell writes (s.goto caller phase) := by
  refine ⟨h.linked, h.computed, fun caller' => ?_⟩
  show Accounts system s.cell writes caller' (Function.update s.phases caller phase caller')
  by_cases hcaller : caller' = caller
  · subst hcaller
    rw [Function.update_self]
    exact hphase
  · rw [Function.update_of_ne hcaller]
    exact h.accounts caller'

theorem writesBy_cons_self (w : Write ι α) (writes : List (Write ι α)) :
    writesBy w.caller (w :: writes) = writesBy w.caller writes + 1 :=
  List.countP_cons_of_pos (decide_eq_true rfl)

theorem writesBy_cons_of_ne {w : Write ι α} {caller : ι} (h : w.caller ≠ caller)
    (writes : List (Write ι α)) : writesBy caller (w :: writes) = writesBy caller writes :=
  List.countP_cons_of_neg fun heq => h (of_decide_eq_true heq)

/-- A write of another caller makes a request stale, and changes nothing else about it. -/
theorem Accounts.other {caller : ι} {phase : Phase α ε} {w : Write ι α} {cell' : Cell α}
    (h : Accounts system cell writes caller phase) (hcaller : w.caller ≠ caller)
    (hlater : cell.index < cell'.index) : Accounts system cell' (w :: writes) caller phase := by
  have hstale : ∀ {index : ℕ} {value : α}, Current system cell caller index value →
      Current system cell' caller index value := by
    intro index value hcurrent
    have hle := hcurrent.1
    refine ⟨by omega, fun heq => ?_⟩
    omega
  cases phase with
  | reading _ => exact (writesBy_cons_of_ne hcaller writes).trans h
  | writing _ _ _ => exact ⟨(writesBy_cons_of_ne hcaller writes).trans h.1, hstale h.2⟩
  | done _ _ =>
    obtain ⟨hone, w', hw', heq⟩ := h
    exact ⟨(writesBy_cons_of_ne hcaller writes).trans hone, w', List.mem_cons_of_mem w hw', heq⟩
  | invalid _ => exact (writesBy_cons_of_ne hcaller writes).trans h
  | exhausted => exact (writesBy_cons_of_ne hcaller writes).trans h
  | broken request =>
    cases request with
    | none => exact Nat.le_trans (Nat.le_of_eq (writesBy_cons_of_ne hcaller writes)) h
    | some request => exact ⟨(writesBy_cons_of_ne hcaller writes).trans h.1, hstale h.2⟩

/-- A request that was current is applied. -/
theorem Invariant.apply (h : Invariant system cell writes s) {caller : ι} {index gap : ℕ} {value : α}
    {phase : Phase α ε} {s' : State ι α ε} {new : List (Write ι α)}
    (hcurrent : Current system s.cell caller index value)
    (hphase : Accounts system ⟨index + gap + 1, value⟩ (⟨caller, s.cell.value, value⟩ :: writes) caller
      phase)
    (happly : s.apply caller index gap value phase = some (s', new)) :
    Invariant system cell (new ++ writes) s' := by
  unfold State.apply at happly
  split at happly
  · rename_i hindex
    cases happly
    have hcomputed := hcurrent.2 hindex
    refine ⟨⟨rfl, h.linked⟩, fun w hw => ?_, fun caller' => ?_⟩
    · obtain rfl | hw := List.mem_cons.mp hw
      · exact hcomputed
      · exact h.computed w hw
    · dsimp only
      by_cases hcaller : caller' = caller
      · subst hcaller
        rw [Function.update_self]
        exact hphase
      · rw [Function.update_of_ne hcaller]
        refine (h.accounts caller').other (Ne.symm hcaller) ?_
        show s.cell.index < index + gap + 1
        omega
  · cases happly

theorem Invariant.step (h : Invariant system cell writes s) {m : Move ι} {s' : State ι α ε}
    {new : List (Write ι α)} (hstep : step system s m = some (s', new)) :
    Invariant system cell (new ++ writes) s' := by
  cases m with
  | read caller =>
    have haccounts := h.accounts caller
    simp only [CompareAndSet.step] at hstep
    split at hstep
    · rename_i attempt hphase
      rw [hphase] at haccounts
      split at hstep
      · rename_i value hcompute
        cases hstep
        exact h.goto ⟨haccounts, Nat.le_refl _, fun _ => hcompute⟩
      · cases hstep
        exact h.goto haccounts
    · cases hstep
  | readFails caller =>
    have haccounts := h.accounts caller
    simp only [CompareAndSet.step] at hstep
    split at hstep
    · rename_i attempt hphase
      rw [hphase] at haccounts
      cases hstep
      refine h.goto ?_
      show writesBy caller writes ≤ 1
      exact Nat.le_trans (Nat.le_of_eq haccounts) (Nat.zero_le 1)
    · cases hstep
  | write caller gap =>
    have haccounts := h.accounts caller
    simp only [CompareAndSet.step] at hstep
    split at hstep
    · rename_i attempt index value hphase
      rw [hphase] at haccounts
      have hone := writesBy_cons_self ⟨caller, s.cell.value, value⟩ writes
      rw [haccounts.1] at hone
      refine h.apply haccounts.2 ?_ hstep
      exact ⟨hone, _, List.mem_cons_self, rfl, rfl⟩
    · cases hstep
  | conflict caller =>
    have haccounts := h.accounts caller
    simp only [CompareAndSet.step] at hstep
    split at hstep
    · rename_i attempt index value hphase
      rw [hphase] at haccounts
      split at hstep
      · cases hstep
        exact h.goto haccounts.1
      · cases hstep
        exact h.goto haccounts.1
    · cases hstep
  | writeFails caller =>
    have haccounts := h.accounts caller
    simp only [CompareAndSet.step] at hstep
    split at hstep
    · rename_i attempt index value hphase
      rw [hphase] at haccounts
      cases hstep
      exact h.goto haccounts
    · cases hstep
  | late caller gap =>
    have haccounts := h.accounts caller
    simp only [CompareAndSet.step] at hstep
    split at hstep
    · rename_i index value hphase
      rw [hphase] at haccounts
      have hone := writesBy_cons_self ⟨caller, s.cell.value, value⟩ writes
      rw [haccounts.1] at hone
      refine h.apply haccounts.2 ?_ hstep
      exact Nat.le_of_eq hone
    · cases hstep

/-- The invariant holds after every run. -/
theorem invariant (h : Run system cell writes s) : Invariant system cell writes s := by
  induction h with
  | start =>
    refine ⟨rfl, fun w hw => absurd hw List.not_mem_nil, fun caller => ?_⟩
    show Accounts system cell [] caller (system.first caller)
    unfold System.first
    split
    · rfl
    · rfl
  | move h m hstep ih => exact ih.step hstep

end CompareAndSet
end Library
end OpenstackPlatform
