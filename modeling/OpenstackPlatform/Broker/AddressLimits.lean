import Mathlib.Algebra.Order.Ring.Rat
import Mathlib.Tactic.Linarith
import OpenstackPlatform.Library.Table
import OpenstackPlatform.Library.SlidingWindow

/-!
# Address limits

`AddressLimits` of `management/broker/anonymous.py`: how often an address may ask for an action in a
minute.  The table has at most 4096 rows; a call for a new pair at a full table evicts the row that
was used least recently, also when calls of it are still in the window.

* `check`: one call, on a table with the newest entry first.
* `admitted`: the times of the calls that were let in; `plain` is what a limiter without a bound on
  its table would have let in.
* `Room`: a call for a pair without recent calls comes while fewer than 4096 pairs have some.
* `admitted_eq_plain`: with room, nothing live is evicted and the table makes no difference.
* `crowd`: 4097 addresses and then the first one again.
-/

namespace OpenstackPlatform
namespace Broker
namespace AddressLimits

open Library SlidingWindow

/-! ## The limiter -/

/-- The actions that have a limit. -/
inductive Action where
  | options
  | start
  deriving DecidableEq

/-- The exception of the limiter. -/
inductive LimitError where
  | http (status : ℕ) (code message : String)
  deriving DecidableEq

section Limiter

variable {α : Type} [DecidableEq α]

/-- `AddressLimits.visits`, newest entry first. -/
abbrev Visits (α : Type) := Table (Action × α) (List ℚ)

/-- `not values or values[-1] <= now - 60` -/
def isStale (now : ℚ) (values : List ℚ) : Bool :=
  match values.getLast? with
  | none => true
  | some last => decide (last ≤ now - 60)

/-- The stale rows leave the table. -/
def expire (visits : Visits α) (now : ℚ) : Visits α :=
  visits.deleteWhere fun _ values => isStale now values

/-- `self.visits.popitem(last=False)` -/
def popOldest (visits : Visits α) : Visits α :=
  match visits.entries.getLast? with
  | none => visits
  | some oldest => visits.erase oldest.1

/-- A full table makes room for a pair that has no row. -/
def makeRoom (visits : Visits α) (key : Action × α) : Visits α :=
  if visits.lookup key = none ∧ 4096 ≤ visits.entries.length then popOldest visits else visits

/-- A row that is there keeps its place; a new one is the newest. -/
def settle (visits : Visits α) (key : Action × α) (values : List ℚ) : Visits α :=
  if visits.lookup key = none then visits.insert key values else visits.replace key values

/-- The times of a pair; without a row there are none. -/
def rowOf (visits : Visits α) (key : Action × α) : List ℚ :=
  (visits.lookup key).getD []

/-- `AddressLimits.check_bucket`, for a pair of an action and an address. -/
def check (limits : Action → ℕ) (visits : Visits α) (key : Action × α) (now : ℚ) :
    Visits α × Except LimitError Unit :=
  let visits := makeRoom (expire visits now) key
  let values := recent 60 now (rowOf visits key)
  if limits key.1 ≤ values.length then
    (settle visits key values,
      .error (.http 429 "RATE_LIMITED" "Please wait a minute before trying sign-in again."))
  else (visits.insert key (values ++ [now]), .ok ())

/-! ## Histories -/

/-- A call: the pair and the time. -/
structure Call (α : Type) where
  key : Action × α
  now : ℚ
  deriving DecidableEq

/-- The table after some calls, newest call first. -/
def visitsAfter (limits : Action → ℕ) : List (Call α) → Visits α
  | [] => ∅
  | call :: calls => (check limits (visitsAfter limits calls) call.key call.now).1

/-- The times of the calls for a pair that were let in, oldest first. -/
def admitted (limits : Action → ℕ) (key : Action × α) : List (Call α) → List ℚ
  | [] => []
  | call :: calls =>
    if call.key = key ∧ (check limits (visitsAfter limits calls) call.key call.now).2 = .ok () then
      admitted limits key calls ++ [call.now]
    else admitted limits key calls

/-- What a limiter lets in that keeps every time. -/
def plain (limits : Action → ℕ) (key : Action × α) : List (Call α) → List ℚ
  | [] => []
  | call :: calls =>
    if call.key = key ∧ (recent 60 call.now (plain limits key calls)).length < limits key.1 then
      plain limits key calls ++ [call.now]
    else plain limits key calls

/-- The clock does not go back. -/
def Clock (calls : List (Call α)) : Prop := calls.Pairwise fun call past => past.now ≤ call.now

/-- The pairs with a call in the last minute are fewer than 4096 whenever a pair without one calls. -/
def Room (limits : Action → ℕ) : List (Call α) → Prop
  | [] => True
  | call :: calls =>
    (recent 60 call.now (admitted limits call.key calls) = [] →
      ∀ keys : List (Action × α), keys.Nodup →
        (∀ key ∈ keys, recent 60 call.now (admitted limits key calls) ≠ []) → keys.length < 4096) ∧
    Room limits calls

/-! ## Rows -/

section Rows

variable {now now' : ℚ} {values : List ℚ}

/-- Nothing of a stale row is in the window. -/
theorem recent_of_isStale (hsorted : values.Pairwise (· ≤ ·)) (hstale : isStale now values = true)
    (hle : now ≤ now') : recent 60 now' values = [] := by
  rw [recent_eq_filter hsorted, List.filter_eq_nil_iff]
  intro t ht hnew
  have hnew : now' - 60 < t := of_decide_eq_true hnew
  unfold isStale at hstale
  split at hstale
  · rename_i hnone
    rw [List.getLast?_eq_none_iff.mp hnone] at ht
    cases ht
  · rename_i last hlast
    have hlast' : last ≤ now - 60 := of_decide_eq_true hstale
    obtain ⟨init, rfl⟩ := List.getLast?_eq_some_iff.mp hlast
    have hle' : t ≤ last := by
      obtain ht | ht := List.mem_append.mp ht
      · exact (List.pairwise_append.mp hsorted).2.2 t ht last (List.mem_singleton_self last)
      · rw [List.mem_singleton.mp ht]
    linarith

/-- Something of a row that is not stale is in the window. -/
theorem recent_of_fresh (hsorted : values.Pairwise (· ≤ ·)) (hfresh : isStale now values = false) :
    recent 60 now values ≠ [] := by
  unfold isStale at hfresh
  split at hfresh
  · cases hfresh
  · rename_i last hlast
    have hnew : now - 60 < last := not_le.mp (of_decide_eq_false hfresh)
    rw [recent_eq_filter hsorted]
    exact List.ne_nil_of_mem
      (List.mem_filter.mpr ⟨List.mem_of_getLast? hlast, decide_eq_true hnew⟩)

variable {visits : Visits α} {key key' : Action × α}

theorem lookup_expire :
    (expire visits now).lookup key = (visits.lookup key).filter fun v => !isStale now v := by
  ext v
  rw [expire, Table.lookup_deleteWhere, Option.filter_eq_some_iff, Bool.not_eq_true']

theorem lookup_settle : (settle visits key values).lookup key' =
    if key' = key then some values else visits.lookup key' := by
  unfold settle
  split
  · exact Table.lookup_insert_ite _ _ _ _
  · rename_i hsome
    obtain ⟨old, hold⟩ := Option.ne_none_iff_exists'.mp hsome
    rw [Table.lookup_replace]
    split
    · rename_i hkey
      rw [hkey, hold, Option.map_some]
    · rfl

/-- What `check` leaves of the other rows, and of the row of the pair. -/
theorem rowOf_check (limits : Action → ℕ) (visits : Visits α) (key key' : Action × α) (now : ℚ) :
    rowOf (check limits visits key now).1 key' =
      if key' = key then
        recent 60 now (rowOf (makeRoom (expire visits now) key) key) ++
          if (check limits visits key now).2 = .ok () then [now] else []
      else rowOf (makeRoom (expire visits now) key) key' := by
  unfold check
  dsimp only
  split
  · rw [rowOf, lookup_settle]
    simp only [reduceCtorEq, if_false, List.append_nil]
    split
    · rfl
    · rfl
  · rw [rowOf, Table.lookup_insert_ite]
    simp only [if_true]
    split
    · rfl
    · rfl

/-- A call is let in while fewer calls than the limit are recent. -/
theorem check_eq_ok_iff {limits : Action → ℕ} : (check limits visits key now).2 = .ok () ↔
    (recent 60 now (rowOf (makeRoom (expire visits now) key) key)).length < limits key.1 := by
  unfold check
  dsimp only
  split
  · rename_i hfull
    exact ⟨nofun, fun h => absurd h (not_lt.mpr hfull)⟩
  · rename_i hfree
    exact ⟨fun _ => not_le.mp hfree, fun _ => rfl⟩

end Rows

/-! ## With room -/

section Refinement

variable {limits : Action → ℕ} {calls : List (Call α)} {call : Call α} {key : Action × α} {now : ℚ}

omit [DecidableEq α] in
theorem Clock.of_cons (h : Clock (call :: calls)) :
    (∀ past ∈ calls, past.now ≤ call.now) ∧ Clock calls :=
  List.pairwise_cons.mp h

/-- The times of all calls, oldest first. -/
def timesOf (calls : List (Call α)) : List ℚ := (calls.map (·.now)).reverse

omit [DecidableEq α] in
theorem timesOf_cons : timesOf (call :: calls) = timesOf calls ++ [call.now] := by
  rw [timesOf, timesOf, List.map_cons, List.reverse_cons]

omit [DecidableEq α] in
theorem le_of_mem_timesOf (h : ∀ past ∈ calls, past.now ≤ now) : ∀ t ∈ timesOf calls, t ≤ now := by
  intro t ht
  obtain ⟨past, hpast, rfl⟩ := List.mem_map.mp (List.mem_reverse.mp ht)
  exact h past hpast

omit [DecidableEq α] in
theorem sorted_timesOf (h : Clock calls) : (timesOf calls).Pairwise (· ≤ ·) := by
  induction calls with
  | nil => exact .nil
  | cons call calls ih =>
    obtain ⟨hle, h⟩ := h.of_cons
    rw [timesOf_cons]
    exact sorted_append (ih h) (le_of_mem_timesOf hle)

theorem admitted_sublist : (admitted limits key calls).Sublist (timesOf calls) := by
  induction calls with
  | nil => exact .refl _
  | cons call calls ih =>
    rw [admitted, timesOf_cons]
    split
    · exact ih.append (.refl _)
    · exact ih.trans (List.sublist_append_left _ _)

theorem plain_sublist : (plain limits key calls).Sublist (timesOf calls) := by
  induction calls with
  | nil => exact .refl _
  | cons call calls ih =>
    rw [plain, timesOf_cons]
    split
    · exact ih.append (.refl _)
    · exact ih.trans (List.sublist_append_left _ _)

theorem sorted_admitted (h : Clock calls) : (admitted limits key calls).Pairwise (· ≤ ·) :=
  (sorted_timesOf h).sublist admitted_sublist

/-- Every row answers for the calls of its pair that were let in. -/
def Kept (limits : Action → ℕ) (calls : List (Call α)) (now : ℚ) (visits : Visits α) : Prop :=
  ∀ key, Tracks 60 now (rowOf visits key) (admitted limits key calls)

theorem Kept.expire {visits : Visits α} (h : Kept limits calls now visits) (hclock : Clock calls) :
    Kept limits calls now (expire visits now) := by
  intro key
  have htracks := h key
  have hsorted := (sorted_admitted hclock).sublist htracks.sublist
  rw [rowOf, lookup_expire]
  rw [rowOf] at htracks hsorted
  cases hlookup : visits.lookup key with
  | none =>
    rw [hlookup] at htracks
    exact htracks
  | some values =>
    rw [hlookup, Option.getD_some] at htracks hsorted
    cases hstale : isStale now values with
    | false =>
      rw [Option.filter_some, hstale, Bool.not_false, if_pos rfl]
      exact htracks
    | true =>
      rw [Option.filter_some, hstale, Bool.not_true, if_neg Bool.false_ne_true]
      refine ⟨List.nil_sublist _, fun later hlater => ?_⟩
      rw [← htracks.recent_eq later hlater, recent_of_isStale hsorted hstale hlater]
      rfl

/-- After stale rows left, a row has calls in the window. -/
theorem recent_of_lookup_expire {visits : Visits α} (h : Kept limits calls now visits)
    (hclock : Clock calls) {values : List ℚ}
    (hlookup : (AddressLimits.expire visits now).lookup key = some values) :
    recent 60 now (admitted limits key calls) ≠ [] := by
  have htracks := h.expire hclock key
  rw [rowOf, hlookup, Option.getD_some] at htracks
  rw [lookup_expire, Option.filter_eq_some_iff, Bool.not_eq_true'] at hlookup
  rw [← htracks.recent_eq now (le_refl now)]
  exact recent_of_fresh ((sorted_admitted hclock).sublist htracks.sublist) hlookup.2

/-- With room nothing is evicted. -/
theorem makeRoom_expire {visits : Visits α} (h : Kept limits calls call.now visits)
    (hclock : Clock calls) (hroom : Room limits (call :: calls)) :
    makeRoom (expire visits call.now) call.key = expire visits call.now := by
  refine if_neg ?_
  rintro ⟨hnone, hfull⟩
  have hidle : recent 60 call.now (admitted limits call.key calls) = [] := by
    rw [← (h.expire hclock call.key).recent_eq call.now (le_refl call.now), rowOf, hnone]
    rfl
  have hfew := hroom.1 hidle (expire visits call.now).entries.keys
    (expire visits call.now).nodupKeys ?_
  · rw [List.keys, List.length_map] at hfew
    omega
  · intro key hkey
    obtain ⟨values, hlookup⟩ := Option.isSome_iff_exists.mp (AList.lookup_isSome.mpr hkey)
    exact recent_of_lookup_expire h hclock hlookup

theorem kept_visitsAfter (hclock : Clock calls) (hroom : Room limits calls)
    (hnow : ∀ past ∈ calls, past.now ≤ now) :
    Kept limits calls now (visitsAfter limits calls) := by
  induction calls generalizing now with
  | nil =>
    intro key
    rw [rowOf, visitsAfter, AList.lookup_empty]
    exact tracks_nil 60 now
  | cons call calls ih =>
    obtain ⟨hle, hpast⟩ := hclock.of_cons
    have hkept := ih hpast hroom.2 hle
    have hexpire := hkept.expire hpast
    have hmake := makeRoom_expire hkept hpast hroom
    intro key
    refine Tracks.mono ?_ (hnow call List.mem_cons_self)
    rw [visitsAfter, rowOf_check, hmake, admitted]
    by_cases hkey : key = call.key
    · subst hkey
      have hsorted := @sorted_admitted _ _ limits _ call.key hpast
      have hrecent := (hexpire call.key).recent hsorted
      rw [if_pos rfl]
      by_cases hok : (check limits (visitsAfter limits calls) call.key call.now).2 = .ok ()
      · rw [if_pos hok, if_pos ⟨rfl, hok⟩]
        refine hrecent.append (sorted_append hsorted fun t ht => ?_)
        exact le_of_mem_timesOf hle t (admitted_sublist.mem ht)
      · rw [if_neg hok, if_neg fun h => hok h.2, List.append_nil]
        exact hrecent
    · rw [if_neg hkey, if_neg fun h => hkey h.1.symm]
      exact hexpire key

/-- With room, what is let in is what a limiter without a bound on its table lets in. -/
theorem admitted_eq_plain (hclock : Clock calls) (hroom : Room limits calls) (key : Action × α) :
    admitted limits key calls = plain limits key calls := by
  induction calls with
  | nil => rfl
  | cons call calls ih =>
    obtain ⟨hle, hpast⟩ := hclock.of_cons
    have hkept := kept_visitsAfter hpast hroom.2 hle
    have ih := ih hpast hroom.2
    have hlet : (check limits (visitsAfter limits calls) call.key call.now).2 = .ok () ↔
        (recent 60 call.now (admitted limits call.key calls)).length < limits call.key.1 := by
      rw [check_eq_ok_iff, makeRoom_expire hkept hpast hroom,
        (hkept.expire hpast call.key).recent_eq call.now (le_refl call.now)]
    rw [admitted, plain]
    by_cases hkey : call.key = key
    · subst hkey
      simp only [true_and, hlet, ih]
    · rw [if_neg fun h => hkey h.1, if_neg fun h => hkey h.1, ih]

/-- A limiter that keeps every time bounds every window. -/
theorem bounded_plain (hclock : Clock calls) (key : Action × α) :
    Bounded (limits key.1) 60 (plain limits key calls) := by
  induction calls with
  | nil => exact bounded_nil _ _
  | cons call calls ih =>
    have hpast := hclock.of_cons.2
    rw [plain]
    split
    · rename_i hlet
      exact (ih hpast).append ((sorted_timesOf hpast).sublist plain_sublist) hlet.2
    · exact ih hpast

end Refinement

end Limiter

/-! ## A crowd -/

section Crowd

/-- Calls from the addresses below a number, all at one time, newest call first. -/
def crowd : ℕ → List (Call ℕ)
  | 0 => []
  | n + 1 => ⟨(.start, n), 0⟩ :: crowd n

/-- One call in a minute. -/
def once : Action → ℕ := fun _ => 1

/-- The rows of a crowd. -/
def crowdRows : ℕ → List (Sigma fun _ : Action × ℕ => List ℚ)
  | 0 => []
  | n + 1 => ⟨(.start, n), [0]⟩ :: crowdRows n

theorem length_crowdRows (n : ℕ) : (crowdRows n).length = n := by
  induction n with
  | zero => rfl
  | succ n ih => rw [crowdRows, List.length_cons, ih]

theorem mem_crowdRows {n : ℕ} {e : Sigma fun _ : Action × ℕ => List ℚ} (h : e ∈ crowdRows n) :
    ∃ m < n, e = ⟨(.start, m), [0]⟩ := by
  induction n with
  | zero => cases h
  | succ n ih =>
    obtain rfl | h := List.mem_cons.mp h
    · exact ⟨n, Nat.lt_succ_self n, rfl⟩
    · obtain ⟨m, hm, rfl⟩ := ih h
      exact ⟨m, Nat.lt_succ_of_lt hm, rfl⟩

theorem getLast?_crowdRows (n : ℕ) : (crowdRows (n + 1)).getLast? = some ⟨(.start, 0), [0]⟩ := by
  induction n with
  | zero => rfl
  | succ n ih => rw [crowdRows, List.getLast?_cons, ih, Option.getD_some]

/-- No row of a crowd is stale. -/
theorem expire_crowdRows {visits : Visits ℕ} {n : ℕ} (h : visits.entries = crowdRows n) :
    expire visits 0 = visits := by
  refine AList.ext (List.filter_eq_self.mpr fun e he => ?_)
  rw [h] at he
  obtain ⟨m, -, rfl⟩ := mem_crowdRows he
  have hold : ¬(0 : ℚ) ≤ 0 - 60 := by norm_num
  rw [Bool.not_eq_true']
  exact decide_eq_false hold

theorem lookup_crowdRows {visits : Visits ℕ} {n : ℕ} (h : visits.entries = crowdRows n) :
    visits.lookup (.start, n) = none := by
  by_contra hsome
  obtain ⟨values, hlookup⟩ := Option.ne_none_iff_exists'.mp hsome
  have hmem := Table.lookup_eq_some_iff.mp hlookup
  rw [h] at hmem
  obtain ⟨m, hm, heq⟩ := mem_crowdRows hmem
  have hkey : (Action.start, n) = (Action.start, m) := congrArg Sigma.fst heq
  have hn : n = m := (Prod.mk.inj hkey).2
  omega

/-- Making room for a pair does not give it a row. -/
theorem lookup_makeRoom {visits : Visits ℕ} {key : Action × ℕ} (h : visits.lookup key = none) :
    (makeRoom (expire visits 0) key).lookup key = none := by
  have hexpire : (expire visits 0).lookup key = none := by
    rw [lookup_expire, h]
    rfl
  unfold makeRoom
  split
  · unfold popOldest
    split
    · exact hexpire
    · rw [Table.lookup_erase_ite, hexpire, ite_self]
  · exact hexpire

/-- A pair without a row is let in. -/
theorem check_of_lookup_none {visits : Visits ℕ} {key : Action × ℕ} (h : visits.lookup key = none) :
    check once visits key 0 = ((makeRoom (expire visits 0) key).insert key [0], .ok ()) := by
  rw [check, rowOf, lookup_makeRoom h]
  rfl

theorem entries_crowd {n : ℕ} (hn : n ≤ 4096) :
    (visitsAfter once (crowd n)).entries = crowdRows n := by
  induction n with
  | zero => rfl
  | succ n ih =>
    have ih := ih (by omega)
    have hnone := lookup_crowdRows ih
    have hroom : makeRoom (visitsAfter once (crowd n)) (.start, n) = visitsAfter once (crowd n) := by
      refine if_neg fun h => ?_
      have hfull := h.2
      rw [ih, length_crowdRows] at hfull
      omega
    have hmake : makeRoom (expire (visitsAfter once (crowd n)) 0) (.start, n) =
        visitsAfter once (crowd n) := by
      rw [expire_crowdRows ih, hroom]
    rw [crowd, visitsAfter, check_of_lookup_none hnone, hmake]
    show List.kinsert _ _ _ = _
    rw [List.kinsert_def, List.kerase_of_notMem_keys (AList.lookup_eq_none.mp hnone), ih]
    rfl

/-- The row of the first address is evicted by the last one. -/
theorem evicted_crowd : (visitsAfter once (crowd 4097)).lookup (.start, 0) = none := by
  have hentries := entries_crowd (le_refl 4096)
  have hnone := lookup_crowdRows hentries
  have hmake : makeRoom (expire (visitsAfter once (crowd 4096)) 0) (.start, 4096) =
      (visitsAfter once (crowd 4096)).erase (.start, 0) := by
    have hfull : 4096 ≤ (visitsAfter once (crowd 4096)).entries.length := by
      rw [hentries, length_crowdRows]
    rw [expire_crowdRows hentries, makeRoom, if_pos ⟨hnone, hfull⟩, popOldest, hentries,
      getLast?_crowdRows 4095]
  rw [crowd, visitsAfter, check_of_lookup_none hnone, hmake,
    Table.lookup_insert_ite, if_neg (by decide), Table.lookup_erase_ite, if_pos rfl]

theorem admitted_crowd (n : ℕ) : admitted once (.start, 0) (crowd (n + 1)) = [0] := by
  induction n with
  | zero => rfl
  | succ n ih =>
    rw [crowd, admitted, if_neg, ih]
    rintro ⟨hkey, -⟩
    have hn : n + 1 = 0 := (Prod.mk.inj hkey).2
    omega

theorem clock_crowd (n : ℕ) : Clock (crowd n) ∧ ∀ call ∈ crowd n, call.now = 0 := by
  induction n with
  | zero => exact ⟨.nil, fun _ h => absurd h List.not_mem_nil⟩
  | succ n ih =>
    refine ⟨List.pairwise_cons.mpr ⟨fun past hpast => ?_, ih.1⟩, fun call hcall => ?_⟩
    · rw [ih.2 past hpast]
    · obtain rfl | hcall := List.mem_cons.mp hcall
      · rfl
      · exact ih.2 call hcall

end Crowd

end AddressLimits
end Broker
end OpenstackPlatform
