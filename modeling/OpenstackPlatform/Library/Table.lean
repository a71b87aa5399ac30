import Mathlib.Data.List.AList

/-!
# Keyed tables and partial unique indexes

A `Table κ ρ` is a finite table of rows of type `ρ` under primary keys of type `κ`.  Mathlib's
`AList` already carries the primary key: no two entries share a key, so a table with a repeated
key cannot be built.

A partial unique index is a function `slot : ρ → Option ι`.  A row with `slot r = none` is outside
the index; two rows inside it may not have the same value.  `UniqueIndex` says so as a decidable
statement about the entries, and `uniqueIndex_iff` reads it by key, which is the form invariants
use.

* `find?`, with `find?_eq_some` and `find?_eq_none`: a `SELECT ... WHERE ...` for one row.
* `modify`, `mapRows`, `deleteWhere`: an `UPDATE` of one row or of all, a `DELETE ... WHERE ...`.
* `countP_congr`: a `COUNT(*)` of rows with a property depends on what is read of the rows.
* `UniqueIndex`, `uniqueIndex_iff`, `UniqueIndex.key_eq`: what an index enforces.
* `UniqueIndex.insert`, `UniqueIndex.insert_of_slot`: writes that keep the index.
* `exists_conflict_of_not_uniqueIndex_insert`: a rejected write names the row it conflicts with.
* `sumOver`, with `sumOver_of_lookup` and `sumOver_insert`: the sum of a figure over the rows.
-/

namespace OpenstackPlatform
namespace Library

universe u v w

/-- A finite table: rows of type `ρ` under primary keys of type `κ`. -/
abbrev Table (κ : Type u) (ρ : Type v) : Type (max u v) := AList (fun _ : κ => ρ)

namespace Table

variable {κ : Type u} {ρ : Type v} {ι : Type w}

section Rows

variable [DecidableEq κ]

/-- The row under a key is the row of the entry with that key. -/
theorem lookup_eq_some_iff {t : Table κ ρ} {k : κ} {r : ρ} :
    t.lookup k = some r ↔ (⟨k, r⟩ : Sigma fun _ : κ => ρ) ∈ t.entries :=
  AList.mem_lookup_iff

/-- Reading a table after one row was written. -/
theorem lookup_insert_ite (t : Table κ ρ) (k k' : κ) (r : ρ) :
    (t.insert k r).lookup k' = if k' = k then some r else t.lookup k' := by
  by_cases h : k' = k
  · subst h
    rw [AList.lookup_insert, if_pos rfl]
  · rw [AList.lookup_insert_ne h, if_neg h]

/-- Reading a table after one row was deleted. -/
theorem lookup_erase_ite (t : Table κ ρ) (k k' : κ) :
    (t.erase k).lookup k' = if k' = k then none else t.lookup k' := by
  by_cases h : k' = k
  · rw [h, AList.lookup_erase, if_pos rfl]
  · rw [AList.lookup_erase_ne h, if_neg h]

theorem dlookup_kreplace (k k' : κ) (r : ρ) (l : List (Sigma fun _ : κ => ρ)) :
    (List.kreplace k r l).dlookup k' =
      if k' = k then (l.dlookup k').map fun _ => r else l.dlookup k' := by
  induction l with
  | nil =>
    show (none : Option ρ) = _
    rw [List.dlookup_nil, Option.map_none, ite_self]
  | cons e l ih =>
    obtain ⟨a, b⟩ := e
    by_cases hk : k = a
    · subst hk
      have hcons : List.kreplace k r (⟨k, b⟩ :: l) = ⟨k, r⟩ :: l :=
        List.lookmap_cons_some _ _ (if_pos rfl)
      rw [hcons]
      by_cases hk' : k' = k
      · subst hk'
        rw [List.dlookup_cons_eq, List.dlookup_cons_eq, if_pos rfl, Option.map_some]
      · rw [List.dlookup_cons_ne _ _ hk', List.dlookup_cons_ne _ _ hk', if_neg hk']
    · have hcons : List.kreplace k r (⟨a, b⟩ :: l) = ⟨a, b⟩ :: List.kreplace k r l :=
        List.lookmap_cons_none _ _ (if_neg hk)
      rw [hcons]
      by_cases hk' : k' = a
      · subst hk'
        rw [List.dlookup_cons_eq, List.dlookup_cons_eq, if_neg (Ne.symm hk)]
      · rw [List.dlookup_cons_ne _ _ hk', List.dlookup_cons_ne _ _ hk', ih]

/-- Reading a table after the value of a row was replaced. -/
theorem lookup_replace (t : Table κ ρ) (k k' : κ) (r : ρ) :
    (t.replace k r).lookup k' =
      if k' = k then (t.lookup k').map fun _ => r else t.lookup k' :=
  dlookup_kreplace k k' r t.entries

/-- `UPDATE ... WHERE key = ...`: change the row under a key, if there is one. -/
def modify (t : Table κ ρ) (k : κ) (f : ρ → ρ) : Table κ ρ :=
  match t.lookup k with
  | some r => t.insert k (f r)
  | none => t

/-- Reading a table after one row was changed. -/
theorem lookup_modify (t : Table κ ρ) (k k' : κ) (f : ρ → ρ) :
    (t.modify k f).lookup k' = if k' = k then (t.lookup k').map f else t.lookup k' := by
  unfold modify
  split
  next r hr =>
    rw [lookup_insert_ite]
    split
    next heq => rw [heq, hr, Option.map_some]
    next => rfl
  next hnone =>
    split
    next heq => rw [heq, hnone, Option.map_none]
    next => rfl

/-- `DELETE ... WHERE ...`: the rows that do not satisfy a condition. -/
def deleteWhere (t : Table κ ρ) (p : κ → ρ → Bool) : Table κ ρ :=
  ⟨t.entries.filter fun e => !p e.1 e.2, (List.NodupKeys.sublist List.filter_sublist t.nodupKeys)⟩

variable {p : κ → ρ → Bool}

/-- Reading a table after some rows were deleted. -/
theorem lookup_deleteWhere {t : Table κ ρ} {k : κ} {r : ρ} :
    (t.deleteWhere p).lookup k = some r ↔ t.lookup k = some r ∧ p k r = false := by
  rw [lookup_eq_some_iff, lookup_eq_some_iff]
  unfold deleteWhere
  simp only [List.mem_filter, Bool.not_eq_true']

/-- `UPDATE ...` of every row. -/
def mapRows (t : Table κ ρ) (f : ρ → ρ) : Table κ ρ where
  entries := t.entries.map fun e => ⟨e.1, f e.2⟩
  nodupKeys := by
    have hkeys : (t.entries.map fun e => (⟨e.1, f e.2⟩ : Sigma fun _ : κ => ρ)).keys =
        t.entries.keys := by
      simp [List.keys]
    rw [List.NodupKeys, hkeys]
    exact t.nodupKeys

/-- Reading a table after every row was changed. -/
theorem lookup_mapRows (t : Table κ ρ) (f : ρ → ρ) (k : κ) :
    (t.mapRows f).lookup k = (t.lookup k).map f := by
  ext r
  rw [lookup_eq_some_iff, Option.map_eq_some_iff]
  unfold mapRows
  simp only [List.mem_map, Sigma.mk.injEq, heq_eq_eq]
  constructor
  · rintro ⟨e, he, rfl, rfl⟩
    exact ⟨e.2, lookup_eq_some_iff.mpr he, rfl⟩
  · rintro ⟨r', hr', rfl⟩
    exact ⟨⟨k, r'⟩, lookup_eq_some_iff.mp hr', rfl, rfl⟩

/-- The first row that satisfies a condition, with its key. -/
def find? (t : Table κ ρ) (p : κ → ρ → Bool) : Option (κ × ρ) :=
  (t.entries.find? fun e => p e.1 e.2).map fun e => (e.1, e.2)

/-- A row that is found is a row of the table and satisfies the condition. -/
theorem find?_eq_some {t : Table κ ρ} {k : κ} {r : ρ} (h : find? t p = some (k, r)) :
    t.lookup k = some r ∧ p k r = true := by
  rw [find?, Option.map_eq_some_iff] at h
  obtain ⟨e, he, hkr⟩ := h
  obtain ⟨rfl, rfl⟩ := Prod.mk.inj hkr
  have hp := List.find?_some he
  exact ⟨lookup_eq_some_iff.mpr (List.mem_of_find?_eq_some he), hp⟩

/-- No row is found exactly when no row satisfies the condition. -/
theorem find?_eq_none {t : Table κ ρ} :
    find? t p = none ↔ ∀ k r, t.lookup k = some r → p k r = false := by
  rw [find?, Option.map_eq_none_iff, List.find?_eq_none]
  constructor
  · intro h k r hr
    exact Bool.eq_false_iff.mpr (h _ (lookup_eq_some_iff.mp hr))
  · rintro h ⟨k, r⟩ he
    exact Bool.eq_false_iff.mp (h k r (lookup_eq_some_iff.mpr he))

/-- A row that satisfies the condition makes the search succeed. -/
theorem find?_isSome_of_lookup {t : Table κ ρ} {k : κ} {r : ρ} (hr : t.lookup k = some r)
    (hp : p k r = true) : ∃ k' r', find? t p = some (k', r') := by
  cases h : find? t p with
  | none =>
    rw [find?_eq_none.mp h k r hr] at hp
    cases hp
  | some e => exact ⟨e.1, e.2, rfl⟩

/-- The number of rows with a property, where the property depends on a part of the row that two tables
agree on. -/
theorem countP_congr {β : Type w} {t t' : Table κ ρ} {g : ρ → β}
    (h : ∀ k, (t'.lookup k).map g = (t.lookup k).map g) (p : β → Bool) :
    t'.entries.countP (fun e => p (g e.2)) = t.entries.countP fun e => p (g e.2) := by
  have hnodup : ∀ u : Table κ ρ, (u.entries.map fun e => (e.1, g e.2)).Nodup := by
    intro u
    refine List.Nodup.of_map Prod.fst ?_
    rw [List.map_map]
    exact u.nodupKeys
  have hmem : ∀ (u : Table κ ρ) (k : κ) (b : β),
      (k, b) ∈ u.entries.map (fun e => (e.1, g e.2)) ↔ (u.lookup k).map g = some b := by
    intro u k b
    simp only [List.mem_map, Prod.mk.injEq, Option.map_eq_some_iff]
    constructor
    · rintro ⟨e, he, rfl, rfl⟩
      exact ⟨e.2, lookup_eq_some_iff.mpr he, rfl⟩
    · rintro ⟨r, hr, rfl⟩
      exact ⟨⟨k, r⟩, lookup_eq_some_iff.mp hr, rfl, rfl⟩
  have hperm : (t'.entries.map fun e => (e.1, g e.2)).Perm (t.entries.map fun e => (e.1, g e.2)) := by
    refine (List.perm_ext_iff_of_nodup (hnodup t') (hnodup t)).mpr fun ⟨k, b⟩ => ?_
    rw [hmem, hmem, h k]
  have hcount := hperm.countP_eq fun q => p q.2
  rw [List.countP_map, List.countP_map] at hcount
  exact hcount

end Rows

/-! ## Partial unique indexes -/

/-- The values of the index, one for each row inside it. -/
def indexed (slot : ρ → Option ι) (t : Table κ ρ) : List ι :=
  t.entries.filterMap fun e => slot e.2

/-- A partial unique index holds: no two rows inside it have the same value. -/
def UniqueIndex (slot : ρ → Option ι) (t : Table κ ρ) : Prop :=
  (indexed slot t).Nodup

instance [DecidableEq ι] (slot : ρ → Option ι) (t : Table κ ρ) :
    Decidable (UniqueIndex slot t) :=
  inferInstanceAs (Decidable (indexed slot t).Nodup)

theorem nodup_filterMap_iff_pairwise {α : Type u} {β : Type v} (f : α → Option β) (l : List α) :
    (l.filterMap f).Nodup ↔ l.Pairwise fun a a' => ∀ b, f a = some b → f a' ≠ some b := by
  rw [List.Nodup, List.pairwise_filterMap]
  constructor
  · intro h
    refine h.imp ?_
    intro a a' hne b hb hb'
    exact hne b hb b hb' rfl
  · intro h
    refine h.imp ?_
    intro a a' hne b hb b' hb' hbb
    subst hbb
    exact hne b hb hb'

variable {slot : ρ → Option ι}

/-- An index read by key: two rows with the same value in it are the same row. -/
theorem uniqueIndex_iff [DecidableEq κ] {t : Table κ ρ} : UniqueIndex slot t ↔
      ∀ k k' r r' i, t.lookup k = some r → t.lookup k' = some r' →
        slot r = some i → slot r' = some i → k = k' := by
  rw [UniqueIndex, indexed, nodup_filterMap_iff_pairwise]
  constructor
  · intro h k k' r r' i hr hr' hi hi'
    by_contra hne
    have hsymm : Std.Symm fun a a' : Sigma fun _ : κ => ρ =>
        ∀ b, slot a.2 = some b → slot a'.2 ≠ some b :=
      ⟨fun a a' h b hb hb' => h b hb' hb⟩
    have hpair := List.Pairwise.forall h (lookup_eq_some_iff.mp hr) (lookup_eq_some_iff.mp hr')
      (fun he => hne (congrArg Sigma.fst he))
    exact hpair i hi hi'
  · intro h
    refine (List.nodupKeys_iff_pairwise.mp t.nodupKeys).imp_of_mem ?_
    intro a a' ha ha' hne b hb hb'
    exact hne (h a.1 a'.1 a.2 a'.2 b (lookup_eq_some_iff.mpr ha) (lookup_eq_some_iff.mpr ha')
      hb hb')

/-- Two rows with the same value in a unique index have the same key. -/
theorem UniqueIndex.key_eq [DecidableEq κ] {t : Table κ ρ} (h : UniqueIndex slot t) {k k' : κ}
    {r r' : ρ} {i : ι} (hr : t.lookup k = some r) (hr' : t.lookup k' = some r')
    (hi : slot r = some i) (hi' : slot r' = some i) : k = k' :=
  uniqueIndex_iff.mp h k k' r r' i hr hr' hi hi'

/-- The empty table satisfies every index. -/
theorem uniqueIndex_empty (slot : ρ → Option ι) : UniqueIndex slot (∅ : Table κ ρ) :=
  List.nodup_nil

/-- A rejected write names a row of the table that already has the value. -/
theorem exists_conflict_of_not_uniqueIndex_insert [DecidableEq κ] {t : Table κ ρ}
    (h : UniqueIndex slot t) {k : κ} {r : ρ} (hnot : ¬ UniqueIndex slot (t.insert k r)) :
    ∃ k' r' i, k' ≠ k ∧ t.lookup k' = some r' ∧ slot r = some i ∧ slot r' = some i := by
  by_contra hno
  refine hnot (uniqueIndex_iff.mpr ?_)
  intro a a' s s' i hs hs' hi hi'
  rw [lookup_insert_ite] at hs hs'
  by_cases ha : a = k <;> by_cases ha' : a' = k
  · rw [ha, ha']
  · rw [if_pos ha] at hs
    rw [if_neg ha'] at hs'
    cases hs
    exact absurd ⟨a', s', i, ha', hs', hi, hi'⟩ hno
  · rw [if_neg ha] at hs
    rw [if_pos ha'] at hs'
    cases hs'
    exact absurd ⟨a, s, i, ha, hs, hi', hi⟩ hno
  · rw [if_neg ha] at hs
    rw [if_neg ha'] at hs'
    exact h.key_eq hs hs' hi hi'

/-- A write that no other row conflicts with keeps the index. -/
theorem UniqueIndex.insert [DecidableEq κ] {t : Table κ ρ} (h : UniqueIndex slot t) {k : κ} {r : ρ}
    (hno : ∀ k' r' i, k' ≠ k → t.lookup k' = some r' → slot r = some i → slot r' ≠ some i) :
    UniqueIndex slot (t.insert k r) := by
  by_contra hnot
  obtain ⟨k', r', i, hk, hr, hi, hi'⟩ := exists_conflict_of_not_uniqueIndex_insert h hnot
  exact hno k' r' i hk hr hi hi'

/-- A write that leaves the row's value in the index as it was, or takes the row out of the
index, keeps the index. -/
theorem UniqueIndex.insert_of_slot [DecidableEq κ] {t : Table κ ρ} (h : UniqueIndex slot t) {k : κ}
    {r r₀ : ρ} (h₀ : t.lookup k = some r₀) (hslot : ∀ i, slot r = some i → slot r₀ = some i) :
    UniqueIndex slot (t.insert k r) := by
  refine h.insert ?_
  intro k' r' i hk hr hi hi'
  exact hk (h.key_eq hr h₀ hi' (hslot i hi))

/-! ## Sums over a table -/

section Sums

variable [DecidableEq κ] {f g : κ → ρ → Nat} {t : Table κ ρ} {k : κ} {r : ρ}

/-- The sum of a figure over a list of entries. -/
def sumEntries (f : κ → ρ → Nat) (l : List (Sigma fun _ : κ => ρ)) : Nat :=
  l.foldr (fun e n => f e.1 e.2 + n) 0

/-- The sum of a figure over the rows of a table. -/
def sumOver (f : κ → ρ → Nat) (t : Table κ ρ) : Nat := sumEntries f t.entries

theorem kerase_cons_self (k : κ) (r : ρ) (l : List (Sigma fun _ : κ => ρ)) :
    List.kerase k (⟨k, r⟩ :: l) = l :=
  List.kerase_cons_eq rfl

theorem sumEntries_kerase {l : List (Sigma fun _ : κ => ρ)} (h : l.NodupKeys)
    (hr : (⟨k, r⟩ : Sigma fun _ : κ => ρ) ∈ l) :
    sumEntries f l = f k r + sumEntries f (l.kerase k) := by
  induction l with
  | nil => cases hr
  | cons e l ih =>
    obtain ⟨hnot, hl⟩ := List.nodupKeys_cons.mp h
    rcases List.mem_cons.mp hr with rfl | hmem
    · rw [kerase_cons_self]
      rfl
    · have hne : k ≠ e.1 := by
        intro hk
        rw [← hk] at hnot
        exact hnot (List.mem_keys_of_mem hmem)
      rw [List.kerase_cons_ne hne]
      simp only [sumEntries, List.foldr_cons] at ih ⊢
      rw [ih hl hmem]
      omega

/-- A row adds its figure to the sum over the others. -/
theorem sumOver_of_lookup (h : t.lookup k = some r) :
    sumOver f t = f k r + sumOver f (t.erase k) :=
  sumEntries_kerase t.nodupKeys (lookup_eq_some_iff.mp h)

/-- A key without a row adds nothing. -/
theorem sumOver_erase_of_lookup_eq_none (h : t.lookup k = none) :
    sumOver f (t.erase k) = sumOver f t := by
  have hnot : k ∉ t.entries.keys := AList.lookup_eq_none.mp h
  change sumEntries f (t.entries.kerase k) = _
  rw [List.kerase_of_notMem_keys hnot]
  rfl

/-- The sum after one row was written. -/
theorem sumOver_insert : sumOver f (t.insert k r) = f k r + sumOver f (t.erase k) := by
  simp only [sumOver, AList.entries_insert]
  rfl

/-- The sum over all rows but one, when another row is written. -/
theorem sumOver_erase_insert {k' : κ} {r' : ρ} (h : t.lookup k = some r) (hk : k ≠ k')
    (hf : f k r' = f k r) : sumOver f ((t.insert k r').erase k') = sumOver f (t.erase k') := by
  have hold : (t.erase k').lookup k = some r := by rwa [AList.lookup_erase_ne hk]
  have hnew : ((t.insert k r').erase k').lookup k = some r' := by
    rw [AList.lookup_erase_ne hk, AList.lookup_insert]
  rw [sumOver_of_lookup hold, sumOver_of_lookup hnew, hf]
  congr 1
  have herase : ∀ (u : Table κ ρ) (x : κ), (u.erase x).entries = u.entries.kerase x :=
    fun _ _ => rfl
  simp only [sumOver, herase, AList.entries_insert]
  rw [List.kerase_cons_ne (Ne.symm hk), kerase_cons_self, List.kerase_comm]

omit [DecidableEq κ] in
theorem sumEntries_sublist {l l' : List (Sigma fun _ : κ => ρ)} (h : l.Sublist l') :
    sumEntries f l ≤ sumEntries f l' := by
  induction h with
  | slnil => exact Nat.le_refl 0
  | cons e _ ih => exact Nat.le_trans ih (Nat.le_add_left _ _)
  | cons_cons e _ ih => exact Nat.add_le_add_left ih _

omit [DecidableEq κ] in
/-- A sum does not grow when rows are deleted. -/
theorem sumOver_deleteWhere_le (p : κ → ρ → Bool) : sumOver f (t.deleteWhere p) ≤ sumOver f t :=
  sumEntries_sublist List.filter_sublist

theorem sumOver_erase_le (k : κ) : sumOver f (t.erase k) ≤ sumOver f t := by
  cases h : t.lookup k with
  | none => exact Nat.le_of_eq (sumOver_erase_of_lookup_eq_none h)
  | some r =>
    rw [sumOver_of_lookup h]
    exact Nat.le_add_left _ _

/-- The entries of the other keys. -/
theorem entries_filter_ne (t : Table κ ρ) (k : κ) :
    (t.entries.filter fun e => e.1 ≠ k) = (t.erase k).entries := by
  change _ = t.entries.kerase k
  have h := t.nodupKeys
  revert h
  induction t.entries with
  | nil => exact fun _ => rfl
  | cons e l ih =>
    intro h
    obtain ⟨hnot, hl⟩ := List.nodupKeys_cons.mp h
    by_cases he : e.1 = k
    · rw [List.kerase_cons_eq he.symm, List.filter_cons_of_neg (by simpa using he)]
      refine List.filter_eq_self.mpr ?_
      intro e' he'
      have hne : e'.1 ≠ k := by
        intro hk
        refine hnot ?_
        rw [he, ← hk]
        exact List.mem_keys_of_mem he'
      simpa using hne
    · rw [List.kerase_cons_ne (Ne.symm he), List.filter_cons_of_pos (by simpa using he), ih hl]

end Sums

end Table
end Library
end OpenstackPlatform
