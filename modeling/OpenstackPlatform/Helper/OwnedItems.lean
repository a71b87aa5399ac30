import OpenstackPlatform.Library.Checks
import OpenstackPlatform.Library.CompareAndSet
import OpenstackPlatform.Library.Table
import OpenstackPlatform.Validation

/-!
# Owned keys of a Nomad Variable

`merge_owned_items` and `update_owned_items` of `helper/nomad.py`.  The items of one Variable belong
to several owners; each changes its own keys by reading all items, merging, and writing them back on
the condition that nobody wrote in between.  A caller brings its own record of who owns which key.

* `mergeOwnedItems`, with `OwnedMerge`: what a merge leaves of the other keys.
* `updates`: the callers as a system of compare-and-set updates.  A call of the client that raises
  something else than a conflict leaves open whether the write is applied.
* `Agree`: the records of two callers do not give one key to both.
* `owned_updates`: in any run of agreeing callers, nobody alters what another owner wrote.
-/

namespace OpenstackPlatform
namespace Helper
namespace OwnedItems

open Library Checks CompareAndSet Validation

/-! ## The merge -/

/-- `SecretItems`, a dictionary; its order is not modelled. -/
abbrev Items := Table String String

/-- The exceptions of `merge_owned_items` and of the attempts of `update_owned_items`. -/
inductive MergeError where
  | limits
  | attempts
  | envKey
  | unknownOwner (owner : String)
  | invalidValue (key : String)
  | valueSize (key : String)
  | updateText (key : String)
  | updateSize (key : String)
  | overlap (keys : List String)
  | unowned (key : String)
  | ownedBy (key recorded owner : String)
  | keyLimit (maximum : ℤ)
  deriving DecidableEq

/-- The text of an exception, given how a string is written with quotes. -/
def MergeError.message (repr : String → String) : MergeError → String
  | .limits => "Nomad Variable limits must be positive"
  | .attempts => "CAS attempts must be from 1 through 10"
  | .envKey => "environment key must start with A-Z and contain only A-Z, 0-9, or _"
  | .unknownOwner owner => "unknown environment key owner " ++ repr owner
  | .invalidValue key => "Nomad Variable key " ++ repr key ++ " has an invalid value"
  | .valueSize key => "Nomad Variable value for " ++ repr key ++ " exceeds its size limit"
  | .updateText key => "environment value for " ++ repr key ++ " must be NUL-free text"
  | .updateSize key => "environment value for " ++ repr key ++ " exceeds its size limit"
  | .overlap keys => "keys cannot be both set and removed: " ++ ", ".intercalate keys
  | .unowned key => "refusing to change existing unowned key " ++ repr key
  | .ownedBy key recorded owner =>
    "key " ++ repr key ++ " is owned by " ++ recorded ++ ", not " ++ owner
  | .keyLimit maximum =>
    "Nomad Variable would exceed its " ++ toString maximum ++ "-key limit"

/-- `_STORAGE_OWNER`: `storage\.(?:postgres|mongo|s3)\.[a-z][a-z0-9-]{0,39}` -/
def isStorageOwner (owner : String) : Bool :=
  match owner.toList.splitOn '.' with
  | [scope, type, c :: cs] =>
    scope == "storage".toList &&
      ["postgres".toList, "mongo".toList, "s3".toList].contains type &&
      c.isLower && decide (cs.length ≤ 39) && cs.all fun d => isLowerAlnum d || d == '-'
  | _ => false

/-- `_validate_owner` -/
def isOwner (owner : String) : Bool :=
  ["platform", "staff"].contains owner || isStorageOwner owner

/-- The arguments of a call. -/
structure Update where
  ownership : Table String String
  owner : String
  updates : Items
  removals : List String
  maximumKeys : ℤ := 128
  maximumValueBytes : ℤ := 65536
  attempts : ℕ := 3

/-- The keys that a call wants to change. -/
def Update.Changes (update : Update) (key : String) : Prop :=
  key ∈ update.removals ∨ key ∈ update.updates

/-- `"\x00" in value` -/
def hasNul (value : String) : Bool := value.toList.contains (Char.ofNat 0)

/-- The guard of one key: an existing key without an owner and a key of another owner stay. -/
def guard (update : Update) (current : Items) (key : String) : Except MergeError Unit :=
  match update.ownership.lookup key with
  | none => demand (decide (key ∉ current)) (.unowned key)
  | some recorded =>
    demand (decide (recorded = update.owner)) (.ownedBy key recorded update.owner)

/-- The items after removals and updates. -/
def merged (update : Update) (current : Items) : Items :=
  update.updates ∪ current.deleteWhere fun key _ => update.removals.contains key

/-- `merge_owned_items`.  Which of several forbidden keys is named is left open by the source, which
goes through a set. -/
def mergeOwnedItems (update : Update) (current : Items) : Except MergeError Items := do
  demand (isOwner update.owner) (.unknownOwner update.owner)
  demand (decide (0 < update.maximumKeys) && decide (0 < update.maximumValueBytes)) .limits
  update.ownership.entries.forM fun e => do
    demand (isEnvKey e.1) .envKey
    demand (isOwner e.2) (.unknownOwner e.2)
  current.entries.forM fun e => do
    demand (isEnvKey e.1) .envKey
    demand (!hasNul e.2) (.invalidValue e.1)
    demand (decide (e.2.utf8ByteSize ≤ update.maximumValueBytes)) (.valueSize e.1)
  update.removals.forM fun key => demand (isEnvKey key) .envKey
  update.updates.entries.forM fun e => do
    demand (isEnvKey e.1) .envKey
    demand (!hasNul e.2) (.updateText e.1)
    demand (decide (e.2.utf8ByteSize ≤ update.maximumValueBytes)) (.updateSize e.1)
  let overlap := update.updates.keys.filter update.removals.contains
  demand overlap.isEmpty (.overlap (overlap.mergeSort fun a b => decide (a ≤ b)))
  (update.removals ++ update.updates.keys).forM (guard update current)
  demand (decide ((merged update current).entries.length ≤ update.maximumKeys))
    (.keyLimit update.maximumKeys)
  return merged update current

/-- What a merge does to the keys. -/
structure OwnedMerge (update : Update) (current items : Items) : Prop where
  /-- an existing key that is not recorded as the caller's stays -/
  existing : ∀ key, key ∈ current → update.ownership.lookup key ≠ some update.owner →
    items.lookup key = current.lookup key
  /-- a key of another owner stays, also when it is absent -/
  others : ∀ key other, update.ownership.lookup key = some other → other ≠ update.owner →
    items.lookup key = current.lookup key
  kept : ∀ key, ¬update.Changes key → items.lookup key = current.lookup key
  updated : ∀ key value, update.updates.lookup key = some value → items.lookup key = some value
  removed : ∀ key ∈ update.removals, items.lookup key = none

section Merge

variable {update : Update} {current items : Items} {key : String}

theorem lookup_merged_of_mem (h : key ∈ update.updates) :
    (merged update current).lookup key = update.updates.lookup key :=
  AList.lookup_union_left h

theorem lookup_merged_of_notMem (h : key ∉ update.updates) :
    (merged update current).lookup key =
      if key ∈ update.removals then none else current.lookup key := by
  rw [merged, AList.lookup_union_right h]
  ext value
  rw [Table.lookup_deleteWhere]
  by_cases hremoved : key ∈ update.removals
  · simp [hremoved]
  · simp [hremoved]

/-- A key that is neither set nor removed is kept. -/
theorem lookup_merged_of_not_changes (h : ¬update.Changes key) :
    (merged update current).lookup key = current.lookup key := by
  rw [Update.Changes, not_or] at h
  rw [lookup_merged_of_notMem h.2, if_neg h.1]

theorem guard_eq_ok (h : guard update current key = .ok ()) :
    (update.ownership.lookup key = none ∧ key ∉ current) ∨
      update.ownership.lookup key = some update.owner := by
  unfold guard at h
  split at h
  · rename_i hnone
    exact .inl ⟨hnone, of_decide_eq_true (demand_ok_iff.mp h)⟩
  · rename_i recorded hrecorded
    rw [← of_decide_eq_true (demand_ok_iff.mp h)]
    exact .inr hrecorded

/-- What a merge that returns has checked. -/
theorem of_mergeOwnedItems (h : mergeOwnedItems update current = .ok items) :
    items = merged update current ∧
      (∀ key, update.Changes key → guard update current key = .ok ()) ∧
      ∀ key ∈ update.removals, key ∉ update.updates := by
  unfold mergeOwnedItems at h
  obtain ⟨_, -, h⟩ := bind_ok_iff.mp h
  obtain ⟨_, -, h⟩ := bind_ok_iff.mp h
  obtain ⟨_, -, h⟩ := bind_ok_iff.mp h
  obtain ⟨_, -, h⟩ := bind_ok_iff.mp h
  obtain ⟨_, -, h⟩ := bind_ok_iff.mp h
  obtain ⟨_, -, h⟩ := bind_ok_iff.mp h
  obtain ⟨_, hoverlap, h⟩ := bind_ok_iff.mp h
  obtain ⟨_, hguard, h⟩ := bind_ok_iff.mp h
  obtain ⟨_, -, h⟩ := bind_ok_iff.mp h
  refine ⟨(Except.ok.inj h).symm, fun key hkey => ?_, fun key hremoved hset => ?_⟩
  · refine forM_ok_iff.mp hguard key (List.mem_append.mpr ?_)
    exact hkey
  · have hempty := List.isEmpty_iff.mp (demand_ok_iff.mp hoverlap)
    have hmem : key ∈ update.updates.keys.filter update.removals.contains :=
      List.mem_filter.mpr ⟨hset, List.contains_iff_mem.mpr hremoved⟩
    rw [hempty] at hmem
    cases hmem

/-- A merge that returns is an `OwnedMerge`. -/
theorem ownedMerge (h : mergeOwnedItems update current = .ok items) :
    OwnedMerge update current items := by
  obtain ⟨rfl, hguard, hdisjoint⟩ := of_mergeOwnedItems h
  refine ⟨fun key hmem howner => lookup_merged_of_not_changes fun hchanges => ?_,
    fun key other hother hne => lookup_merged_of_not_changes fun hchanges => ?_,
    fun key => lookup_merged_of_not_changes, fun key value hvalue => ?_, fun key hremoved => ?_⟩
  · obtain ⟨-, habsent⟩ | hown := guard_eq_ok (hguard key hchanges)
    · exact habsent hmem
    · exact howner hown
  · obtain ⟨hnone, -⟩ | hown := guard_eq_ok (hguard key hchanges)
    · rw [hnone] at hother
      cases hother
    · exact hne (Option.some.inj (hother.symm.trans hown))
  · rw [lookup_merged_of_mem (AList.lookup_isSome.mp (by rw [hvalue]; rfl)), hvalue]
  · rw [lookup_merged_of_notMem (hdisjoint key hremoved), if_pos hremoved]

end Merge

/-! ## The callers -/

section Callers

variable {ι : Type} [DecidableEq ι]

omit [DecidableEq ι] in
/-- `update_owned_items`, for any number of calls on one Variable. -/
def updates (calls : ι → Update) : System ι Items MergeError where
  begin call := demand (decide (1 ≤ (calls call).attempts) && decide ((calls call).attempts ≤ 10))
    .attempts
  compute call := mergeOwnedItems (calls call)
  attempts call := (calls call).attempts

/-- The records of two callers do not give one key to both. -/
structure Agree (a b : Update) : Prop where
  /-- a key that `a` may set is not `b`'s -/
  updated : ∀ key ∈ a.updates,
    (a.ownership.lookup key = none ∨ a.ownership.lookup key = some a.owner) →
      b.ownership.lookup key ≠ some b.owner
  /-- a key of `a` that `a` removes is somebody else's for `b`, if `b` sets it -/
  removed : ∀ key ∈ a.removals, a.ownership.lookup key = some a.owner → key ∈ b.updates →
    ∃ other, b.ownership.lookup key = some other ∧ other ≠ b.owner

/-- Callers with one record agree. -/
theorem agree_of_common {a b : Update} (howner : a.owner ≠ b.owner)
    (hcommon : a.ownership = b.ownership) : Agree a b := by
  refine ⟨fun key _ howned hown => ?_, fun key _ howned _ => ⟨a.owner, ?_, howner⟩⟩
  · rw [hcommon, hown] at howned
    obtain hnone | hsome := howned
    · cases hnone
    · exact howner (Option.some.inj hsome).symm
  · rw [← hcommon]
    exact howned

/-- What holds of a run of the callers. -/
structure Safe (calls : ι → Update) (cell : Cell Items) (writes : List (Write ι Items))
    (s : State ι Items MergeError) : Prop where
  /-- each write merges into what the one before it left -/
  linked : Linked cell.value writes s.cell.value
  merge : ∀ w ∈ writes, mergeOwnedItems (calls w.caller) w.before = .ok w.after
  /-- a call that returned wrote once -/
  success : ∀ call, (s.phases call).returned = true →
    writesBy call writes = 1 ∧ ∃ w ∈ writes, w.caller = call
  /-- until its owner changes a key again, the key has what a write gave it -/
  updated : ∀ later w earlier, writes = later ++ w :: earlier →
    ∀ key value, (calls w.caller).updates.lookup key = some value →
      (∀ w' ∈ later, (calls w'.caller).owner = (calls w.caller).owner →
        ¬(calls w'.caller).Changes key) → s.cell.value.lookup key = some value
  removed : ∀ later w earlier, writes = later ++ w :: earlier →
    ∀ key ∈ (calls w.caller).removals,
      (calls w.caller).ownership.lookup key = some (calls w.caller).owner →
      (∀ w' ∈ later, (calls w'.caller).owner = (calls w.caller).owner →
        ¬(calls w'.caller).Changes key) → s.cell.value.lookup key = none
  /-- a call that raised on its own, or after a conflict, did not write -/
  refused : ∀ call, (s.phases call).refused = true → writesBy call writes = 0
  /-- a call that lost its connection wrote at most once -/
  unanswered : ∀ call, (s.phases call).unanswered = true → writesBy call writes ≤ 1

theorem safe_of_run {calls : ι → Update}
    (hagree : ∀ a b, (calls a).owner ≠ (calls b).owner → Agree (calls a) (calls b))
    {cell : Cell Items} {writes : List (Write ι Items)} {s : State ι Items MergeError}
    (h : Run (updates calls) cell writes s) : Safe calls cell writes s := by
  have hinv := invariant h
  have hmerge : ∀ w ∈ writes, OwnedMerge (calls w.caller) w.before w.after :=
    fun w hw => ownedMerge (hinv.computed w hw)
  refine ⟨hinv.linked, hinv.computed, fun call => (hinv.accounts call).of_returned,
    fun later w earlier hwrites key value hvalue hlater => ?_,
    fun later w earlier hwrites key hkey hown hlater => ?_,
    fun call => (hinv.accounts call).of_refused, fun call => (hinv.accounts call).of_unanswered⟩
  · subst hwrites
    have hw : w ∈ later ++ w :: earlier := List.mem_append_right _ List.mem_cons_self
    have hset : key ∈ (calls w.caller).updates := AList.lookup_isSome.mp (by rw [hvalue]; rfl)
    refine hinv.linked.preserves (P := fun items => items.lookup key = some value)
      (fun w' hw' hbefore => ?_) ((hmerge w hw).updated key value hvalue)
    have hmerge' := hmerge w' (List.mem_append_left _ hw')
    by_cases howner : (calls w'.caller).owner = (calls w.caller).owner
    · rw [hmerge'.kept key (hlater w' hw' howner)]
      exact hbefore
    · -- The key exists, so it takes a record of its own to change it.
      have hguard := guard_eq_ok ((of_mergeOwnedItems (hinv.computed w hw)).2.1 key (.inr hset))
      have hfree := (hagree w.caller w'.caller (Ne.symm howner)).updated key hset
        (hguard.imp And.left id)
      rw [hmerge'.existing key (AList.lookup_isSome.mp (by rw [hbefore]; rfl)) hfree]
      exact hbefore
  · subst hwrites
    have hw : w ∈ later ++ w :: earlier := List.mem_append_right _ List.mem_cons_self
    refine hinv.linked.preserves (P := fun items => items.lookup key = none)
      (fun w' hw' hbefore => ?_) ((hmerge w hw).removed key hkey)
    have hmerge' := hmerge w' (List.mem_append_left _ hw')
    by_cases howner : (calls w'.caller).owner = (calls w.caller).owner
    · rw [hmerge'.kept key (hlater w' hw' howner)]
      exact hbefore
    · by_cases hset : key ∈ (calls w'.caller).updates
      · obtain ⟨other, hother, hne⟩ :=
          (hagree w.caller w'.caller (Ne.symm howner)).removed key hkey hown hset
        rw [hmerge'.others key other hother hne]
        exact hbefore
      · by_cases hremoved : key ∈ (calls w'.caller).removals
        · exact hmerge'.removed key hremoved
        · rw [hmerge'.kept key fun hchanges => hchanges.elim hremoved hset]
          exact hbefore

/-- **Owned keys.**  A merge leaves existing keys without an owner and keys of other owners as they
are.  In any run of callers whose records agree, every write merges into what the one before it left,
what a call wrote stays until its owner changes the key, and only a call that lost its connection may
have raised after a write. -/
theorem owned_updates {calls : ι → Update}
    (hagree : ∀ a b, (calls a).owner ≠ (calls b).owner → Agree (calls a) (calls b)) :
    (∀ update current items, mergeOwnedItems update current = .ok items →
      OwnedMerge update current items) ∧
    ∀ cell writes s, Run (updates calls) cell writes s → Safe calls cell writes s :=
  ⟨fun _ _ _ h => ownedMerge h, fun _ _ _ h => safe_of_run hagree h⟩

end Callers

/-! ## Two callers -/

section Pair

/-- A call that sets one key. -/
def setKey (owner : String) (ownership : Table String String) (key value : String) : Update where
  ownership := ownership
  owner := owner
  updates := (∅ : Items).insert key value
  removals := []

/-- Staff set `PORT` and the platform sets a key, with one record each. -/
def pair (key : String) (staff platform : Table String String) (call : Bool) : Update :=
  if call then setKey "staff" staff "PORT" "3000" else setKey "platform" platform key "80"

/-- The second caller's record says that the key is its own. -/
def claimed : Table String String := (∅ : Table String String).insert "PORT" "platform"

/-- Both write, one after the other. -/
def inTurn : List (Move Bool) := [.read true, .write true 0, .read false, .write false 0]

/-- Both read before either writes: the second write meets a conflict and the call starts over. -/
def crossing : List (Move Bool) :=
  [.read true, .read false, .write true 0, .conflict false, .read false, .write false 0]

/-- The answer to a write is lost. -/
def lostAnswer : List (Move Bool) := [.read true, .writeFails true, .late true 0]

theorem owned_updates_pair : ∃ writes s,
    Run (updates (pair "HOST" ∅ ∅)) ⟨0, ∅⟩ writes s ∧ Safe (pair "HOST" ∅ ∅) ⟨0, ∅⟩ writes s ∧
      writes.length = 2 ∧ (s.phases true).returned = true ∧ (s.phases false).returned = true ∧
      s.cell.value.lookup "PORT" = some "3000" ∧ s.cell.value.lookup "HOST" = some "80" := by
  have hagree : ∀ a b, (pair "HOST" ∅ ∅ a).owner ≠ (pair "HOST" ∅ ∅ b).owner →
      Agree (pair "HOST" ∅ ∅ a) (pair "HOST" ∅ ∅ b) := by
    intro a b howner
    refine agree_of_common howner ?_
    cases a <;> cases b <;> rfl
  have hstart : Run (updates (pair "HOST" ∅ ∅)) ⟨0, ∅⟩ []
      ⟨⟨0, ∅⟩, (updates (pair "HOST" ∅ ∅)).first⟩ := .start
  have hrun := hstart.replay (rfl : replay _ _ _ crossing = some _)
  exact ⟨_, _, hrun, (owned_updates hagree).2 _ _ _ hrun, rfl, rfl, rfl, rfl, rfl⟩

/-- With records that both claim the key, the second caller overwrites what the first one wrote and
returned; and a call whose answer is lost raises although the Variable changed. -/
theorem overwritten_and_unanswered :
    (∃ writes s, Run (updates (pair "PORT" ∅ claimed)) ⟨0, ∅⟩ writes s ∧
      (s.phases true).returned = true ∧ (s.phases false).returned = true ∧
      s.cell.value.lookup "PORT" = some "80") ∧
    ∃ writes s, Run (updates (pair "PORT" ∅ ∅)) ⟨0, ∅⟩ writes s ∧
      (s.phases true).unanswered = true ∧ s.cell.value.lookup "PORT" = some "3000" := by
  have hstart : ∀ platform, Run (updates (pair "PORT" ∅ platform)) ⟨0, ∅⟩ []
      ⟨⟨0, ∅⟩, (updates (pair "PORT" ∅ platform)).first⟩ := fun _ => .start
  refine ⟨?_, ?_⟩
  · have hrun := (hstart claimed).replay (rfl : replay _ _ _ inTurn = some _)
    exact ⟨_, _, hrun, rfl, rfl, rfl⟩
  · have hrun := (hstart ∅).replay (rfl : replay _ _ _ lostAnswer = some _)
    exact ⟨_, _, hrun, rfl, rfl⟩

end Pair

end OwnedItems
end Helper
end OpenstackPlatform
