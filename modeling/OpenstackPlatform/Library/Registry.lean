import OpenstackPlatform.Library.Table
import OpenstackPlatform.Library.SlidingWindow

/-!
# Tables of shared objects

A dictionary whose values are mutable objects: who holds a value keeps changing the same object after
its entry is gone.  A `Registry` is a table of references with the objects beside it.  Two keys never
share an object, and an object that is created is new; both are fields.

The newest entry of the table is its first one, so `create` and `touch` put an entry to the front.

* `sweep`: one pass over the table that changes every object in it and deletes the entries of some.
* `queue`: a queue of times kept in the object of a key, with `tracks_sweep`.
-/

namespace OpenstackPlatform
namespace Library

universe u v

/-- A table of references to objects. -/
structure Registry (κ : Type u) (ω : Type v) [DecidableEq κ] where
  table : Table κ ℕ
  objects : ℕ → ω
  next : ℕ
  lt_next : ∀ k r, table.lookup k = some r → r < next
  key_eq : ∀ k k' r, table.lookup k = some r → table.lookup k' = some r → k = k'

namespace Registry

variable {κ : Type u} {ω : Type v} [DecidableEq κ]

/-- The empty table. -/
def empty (w : ω) : Registry κ ω where
  table := ∅
  objects := fun _ => w
  next := 0
  lt_next := fun k r h => by rw [AList.lookup_empty] at h; cases h
  key_eq := fun k k' r h => by rw [AList.lookup_empty] at h; cases h

/-- The number of entries. -/
def size (g : Registry κ ω) : ℕ := g.table.entries.length

/-- Changes one object. -/
def modify (g : Registry κ ω) (r : ℕ) (f : ω → ω) : Registry κ ω :=
  { g with objects := fun r' => if r' = r then f (g.objects r') else g.objects r' }

/-- Changes every object of the table, and then deletes the entries of those that satisfy `p`. -/
def sweep (g : Registry κ ω) (f : ω → ω) (p : ω → Bool) : Registry κ ω where
  table := g.table.deleteWhere fun _ r => p (f (g.objects r))
  objects := fun r => if (g.table.entries.map (·.2)).contains r then f (g.objects r) else g.objects r
  next := g.next
  lt_next := fun k r h => g.lt_next k r (Table.lookup_deleteWhere.mp h).1
  key_eq := fun k k' r h h' =>
    g.key_eq k k' r (Table.lookup_deleteWhere.mp h).1 (Table.lookup_deleteWhere.mp h').1

/-- Creates an object under a key. -/
def create (g : Registry κ ω) (k : κ) (w : ω) : Registry κ ω where
  table := g.table.insert k g.next
  objects := fun r => if r = g.next then w else g.objects r
  next := g.next + 1
  lt_next := fun k' r h => by
    rw [Table.lookup_insert_ite] at h
    split at h
    · have := Option.some.inj h
      omega
    · have := g.lt_next k' r h
      omega
  key_eq := fun k₁ k₂ r h₁ h₂ => by
    rw [Table.lookup_insert_ite] at h₁ h₂
    split at h₁
    · rename_i hk₁
      split at h₂
      · rename_i hk₂
        rw [hk₁, hk₂]
      · have := Option.some.inj h₁
        have := g.lt_next k₂ r h₂
        omega
    · split at h₂
      · have := Option.some.inj h₂
        have := g.lt_next k₁ r h₁
        omega
      · exact g.key_eq k₁ k₂ r h₁ h₂

/-- Deletes an entry. -/
def erase (g : Registry κ ω) (k : κ) : Registry κ ω where
  table := g.table.erase k
  objects := g.objects
  next := g.next
  lt_next := fun k' r h => by
    rw [Table.lookup_erase_ite] at h
    split at h
    · cases h
    · exact g.lt_next k' r h
  key_eq := fun k₁ k₂ r h₁ h₂ => by
    rw [Table.lookup_erase_ite] at h₁ h₂
    split at h₁
    · cases h₁
    · split at h₂
      · cases h₂
      · exact g.key_eq k₁ k₂ r h₁ h₂

theorem lookup_touch (t : Table κ ℕ) (k k' : κ) {r : ℕ} (h : t.lookup k = some r) :
    (t.insert k r).lookup k' = t.lookup k' := by
  rw [Table.lookup_insert_ite]
  split
  · rename_i hk
    rw [hk, h]
  · rfl

/-- Moves an entry to the newest place. -/
def touch (g : Registry κ ω) (k : κ) : Registry κ ω :=
  match h : g.table.lookup k with
  | none => g
  | some r =>
    { g with
      table := g.table.insert k r
      lt_next := fun k' r' h' => g.lt_next k' r' (by rwa [lookup_touch _ _ _ h] at h')
      key_eq := fun k₁ k₂ r' h₁ h₂ => g.key_eq k₁ k₂ r' (by rwa [lookup_touch _ _ _ h] at h₁)
        (by rwa [lookup_touch _ _ _ h] at h₂) }

/-! ## What the operations leave -/

section Operations

variable (g : Registry κ ω) (k k' : κ) (r r' : ℕ) (w : ω) (f : ω → ω) (p : ω → Bool)

@[simp] theorem modify_table : (g.modify r f).table = g.table := rfl

@[simp] theorem modify_next : (g.modify r f).next = g.next := rfl

theorem modify_objects :
    (g.modify r f).objects r' = if r' = r then f (g.objects r') else g.objects r' := rfl

@[simp] theorem modify_objects_self : (g.modify r f).objects r = f (g.objects r) := if_pos rfl

@[simp] theorem size_modify : (g.modify r f).size = g.size := rfl

theorem lookup_sweep : (g.sweep f p).table.lookup k = some r ↔
    g.table.lookup k = some r ∧ p (f (g.objects r)) = false :=
  Table.lookup_deleteWhere

theorem sweep_objects_of_lookup {g : Registry κ ω} {k : κ} {r : ℕ} (f : ω → ω) (p : ω → Bool)
    (h : g.table.lookup k = some r) : (g.sweep f p).objects r = f (g.objects r) := by
  have hmem : r ∈ g.table.entries.map (·.2) :=
    List.mem_map.mpr ⟨⟨k, r⟩, Table.lookup_eq_some_iff.mp h, rfl⟩
  exact if_pos (List.contains_iff_mem.mpr hmem)

theorem sweep_objects_cases : (g.sweep f p).objects r = g.objects r ∨
    ((∃ k, g.table.lookup k = some r) ∧ (g.sweep f p).objects r = f (g.objects r)) := by
  by_cases hmem : r ∈ g.table.entries.map (·.2)
  · obtain ⟨⟨k, r⟩, he, rfl⟩ := List.mem_map.mp hmem
    have hlookup := Table.lookup_eq_some_iff.mpr he
    exact .inr ⟨⟨k, hlookup⟩, sweep_objects_of_lookup f p hlookup⟩
  · exact .inl (if_neg fun h => hmem (List.contains_iff_mem.mp h))

theorem size_sweep_le : (g.sweep f p).size ≤ g.size :=
  List.length_filter_le _ _

theorem lookup_create :
    (g.create k w).table.lookup k' = if k' = k then some g.next else g.table.lookup k' :=
  Table.lookup_insert_ite _ _ _ _

@[simp] theorem create_next : (g.create k w).next = g.next + 1 := rfl

theorem create_objects :
    (g.create k w).objects r = if r = g.next then w else g.objects r := rfl

theorem size_create_le : (g.create k w).size ≤ g.size + 1 := by
  show (List.kinsert k g.next g.table.entries).length ≤ g.table.entries.length + 1
  rw [List.kinsert_def, List.length_cons]
  exact Nat.succ_le_succ (List.kerase_sublist k g.table.entries).length_le

theorem lookup_erase :
    (g.erase k).table.lookup k' = if k' = k then none else g.table.lookup k' :=
  Table.lookup_erase_ite _ _ _

@[simp] theorem touch_objects : (g.touch k).objects = g.objects := by
  unfold touch
  split <;> rfl

@[simp] theorem touch_next : (g.touch k).next = g.next := by
  unfold touch
  split <;> rfl

@[simp] theorem lookup_touch' : (g.touch k).table.lookup k' = g.table.lookup k' := by
  unfold touch
  split
  · rfl
  · rename_i r h
    exact lookup_touch _ _ _ h

/-- Deleting a key that is there makes room for one. -/
theorem length_kerase {l : List (Sigma fun _ : κ => ℕ)} {k : κ} (h : k ∈ l.keys) :
    (l.kerase k).length + 1 = l.length := by
  obtain ⟨r, l₁, l₂, -, rfl, hkerase⟩ := List.exists_of_kerase h
  rw [hkerase, List.length_append, List.length_append, List.length_cons]
  omega

theorem size_erase_of_lookup {g : Registry κ ω} {k : κ} {r : ℕ}
    (h : g.table.lookup k = some r) : (g.erase k).size + 1 = g.size :=
  length_kerase (AList.lookup_isSome.mp (by rw [h]; rfl))

theorem size_create_of_lookup {g : Registry κ ω} {k : κ} {r : ℕ} (w : ω)
    (h : g.table.lookup k = some r) : (g.create k w).size = g.size := by
  show (List.kinsert k g.next g.table.entries).length = g.table.entries.length
  rw [List.kinsert_def, List.length_cons]
  exact length_kerase (AList.lookup_isSome.mp (by rw [h]; rfl))

@[simp] theorem size_touch : (g.touch k).size = g.size := by
  unfold touch
  split
  · rfl
  · rename_i r h
    show (List.kinsert k r g.table.entries).length = g.table.entries.length
    rw [List.kinsert_def, List.length_cons]
    exact length_kerase (AList.lookup_isSome.mp (by rw [h]; rfl))

end Operations

/-- Keys that have an entry keep it, with its object. -/
theorem create_of_lookup {g : Registry κ ω} {k k' : κ} {r : ℕ} {w : ω}
    (hnone : g.table.lookup k = none) (h : g.table.lookup k' = some r) :
    (g.create k w).table.lookup k' = some r ∧ (g.create k w).objects r = g.objects r := by
  have hne : k' ≠ k := by
    rintro rfl
    rw [hnone] at h
    cases h
  have hlt := g.lt_next k' r h
  rw [lookup_create, if_neg hne, create_objects, if_neg (by omega)]
  exact ⟨h, rfl⟩

/-- An entry is the new one or was there before. -/
theorem create_cases {g : Registry κ ω} {k k' : κ} {r : ℕ} {w : ω}
    (h : (g.create k w).table.lookup k' = some r) :
    (k' = k ∧ r = g.next ∧ (g.create k w).objects r = w) ∨
      (k' ≠ k ∧ g.table.lookup k' = some r ∧ (g.create k w).objects r = g.objects r) := by
  rw [lookup_create] at h
  split at h
  · rename_i hk
    cases h
    exact .inl ⟨hk, rfl, if_pos rfl⟩
  · rename_i hk
    have hlt := g.lt_next k' r h
    rw [create_objects, if_neg (by omega)]
    exact .inr ⟨hk, h, rfl⟩

/-- Changing the object of one key leaves those of the others. -/
theorem modify_objects_of_ne {g : Registry κ ω} {k k' : κ} {r r' : ℕ} {f : ω → ω}
    (h : g.table.lookup k = some r) (h' : g.table.lookup k' = some r') (hne : k' ≠ k) :
    (g.modify r f).objects r' = g.objects r' := by
  have hrow : r' ≠ r := by
    rintro rfl
    exact hne (g.key_eq k' k r' h' h)
  rw [modify_objects, if_neg hrow]

/-! ## Queues of times -/

section Queues

open SlidingWindow

variable {τ : Type v}

/-- The queue of a key; without an entry it is empty. -/
def queue (q : ω → List τ) (g : Registry κ ω) (k : κ) : List τ :=
  match g.table.lookup k with
  | some r => q (g.objects r)
  | none => []

variable {q : ω → List τ}

theorem queue_of_lookup {g : Registry κ ω} {k : κ} {r : ℕ} (h : g.table.lookup k = some r) :
    queue q g k = q (g.objects r) := by
  rw [queue, h]

theorem queue_create {g : Registry κ ω} {k k' : κ} {w : ω} (hnone : g.table.lookup k = none)
    (hw : q w = []) : queue q (g.create k w) k' = queue q g k' := by
  by_cases hk : k' = k
  · subst hk
    rw [queue, queue, hnone, lookup_create, if_pos rfl]
    show q ((g.create k' w).objects g.next) = []
    rw [create_objects, if_pos rfl, hw]
  · rw [queue, queue, lookup_create, if_neg hk]
    split
    · rename_i r h
      rw [(create_of_lookup hnone h).2]
    · rfl

theorem queue_modify {g : Registry κ ω} {k k' : κ} {r : ℕ} {f : ω → ω}
    (h : g.table.lookup k = some r) :
    queue q (g.modify r f) k' = if k' = k then q (f (g.objects r)) else queue q g k' := by
  split
  · rename_i hk
    subst hk
    rw [queue_of_lookup (g := g.modify r f) h, modify_objects_self]
  · rename_i hk
    rw [queue, queue, modify_table]
    split
    · rename_i r' h'
      rw [modify_objects_of_ne h h' hk]
    · rfl

@[simp] theorem queue_touch (q : ω → List τ) (g : Registry κ ω) (k k' : κ) :
    queue q (g.touch k) k' = queue q g k' := by
  rw [queue, queue, lookup_touch', touch_objects]

variable [AddCommGroup τ] [LinearOrder τ] [IsOrderedAddMonoid τ]

/-- A pass that takes what left the window off every queue, and deletes entries with an empty queue
only. -/
theorem tracks_sweep {g : Registry κ ω} {f : ω → ω} {p : ω → Bool} {width now : τ} {k : κ}
    {times : List τ} (hq : ∀ w, q (f w) = recent width now (q w)) (hp : ∀ w, p w = true → q w = [])
    (hsorted : times.Pairwise (· ≤ ·)) (h : Tracks width now (queue q g k) times) :
    Tracks width now (queue q (g.sweep f p) k) times := by
  have hrecent := h.recent hsorted
  cases hlookup : g.table.lookup k with
  | none =>
    have hnone : (g.sweep f p).table.lookup k = none := by
      by_contra hsome
      obtain ⟨r, hr⟩ := Option.ne_none_iff_exists'.mp hsome
      rw [((lookup_sweep g k r f p).mp hr).1] at hlookup
      cases hlookup
    rw [queue, hlookup] at hrecent
    rw [queue, hnone]
    exact hrecent
  | some r =>
    rw [queue_of_lookup hlookup, ← hq] at hrecent
    cases hdelete : p (f (g.objects r)) with
    | false =>
      have hkeep := (lookup_sweep g k r f p).mpr ⟨hlookup, hdelete⟩
      rw [queue_of_lookup hkeep, sweep_objects_of_lookup f p hlookup]
      exact hrecent
    | true =>
      have hnone : (g.sweep f p).table.lookup k = none := by
        by_contra hsome
        obtain ⟨r', hr'⟩ := Option.ne_none_iff_exists'.mp hsome
        obtain ⟨hr', hkeep⟩ := (lookup_sweep g k r' f p).mp hr'
        rw [Option.some.inj (hlookup.symm.trans hr'), hkeep] at hdelete
        cases hdelete
      rw [hp _ hdelete] at hrecent
      rw [queue, hnone]
      exact hrecent

end Queues

end Registry
end Library
end OpenstackPlatform
