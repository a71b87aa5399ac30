import OpenstackPlatform.Library.Table

/-!
# Dictionaries from items

A dictionary display `{k: v, ...}` writes its items one after another into an empty table.

* `ofItems`, with `lookup_ofItems` and `lookup_ofItems_eq_none`: what such a table holds.
* `hasKeys`, `hasKeys_iff`: the keys of a table are those of a list.
-/

namespace OpenstackPlatform
namespace Library
namespace Table

universe u v

variable {κ : Type u} {ρ : Type v} [DecidableEq κ]

/-- Items written into a table, the first one first. -/
def writeItems (t : Table κ ρ) (items : List (κ × ρ)) : Table κ ρ :=
  items.foldl (fun t item => t.insert item.1 item.2) t

/-- `{k: v, ...}` -/
def ofItems (items : List (κ × ρ)) : Table κ ρ := writeItems ∅ items

theorem writeItems_cons (t : Table κ ρ) (item : κ × ρ) (items : List (κ × ρ)) :
    writeItems t (item :: items) = writeItems (t.insert item.1 item.2) items := rfl

variable {items : List (κ × ρ)}

/-- A key that no item has is read as before. -/
theorem lookup_writeItems_of_notMem {k : κ} (h : k ∉ items.map Prod.fst) (t : Table κ ρ) :
    (writeItems t items).lookup k = t.lookup k := by
  induction items generalizing t with
  | nil => rfl
  | cons item items ih =>
    rw [List.map_cons, List.mem_cons, not_or] at h
    rw [writeItems_cons, ih h.2, AList.lookup_insert_ne h.1]

/-- The key of an item is read as its value, when no other item has it. -/
theorem lookup_writeItems (hkeys : (items.map Prod.fst).Nodup) {item : κ × ρ} (h : item ∈ items)
    (t : Table κ ρ) : (writeItems t items).lookup item.1 = some item.2 := by
  induction items generalizing t with
  | nil => cases h
  | cons first items ih =>
    rw [List.map_cons, List.nodup_cons] at hkeys
    rw [writeItems_cons]
    rcases List.mem_cons.mp h with rfl | h
    · rw [lookup_writeItems_of_notMem hkeys.1, AList.lookup_insert]
    · exact ih hkeys.2 h _

theorem lookup_ofItems (hkeys : (items.map Prod.fst).Nodup) {item : κ × ρ} (h : item ∈ items) :
    (ofItems items).lookup item.1 = some item.2 :=
  lookup_writeItems hkeys h ∅

theorem lookup_ofItems_eq_none {k : κ} (h : k ∉ items.map Prod.fst) :
    (ofItems items).lookup k = none :=
  lookup_writeItems_of_notMem h ∅

/-- `table.keys() == set(keys)` -/
def hasKeys (t : Table κ ρ) (keys : List κ) : Bool :=
  t.keys.all (fun k => decide (k ∈ keys)) && keys.all fun k => (t.lookup k).isSome

theorem hasKeys_iff {t : Table κ ρ} {keys : List κ} :
    t.hasKeys keys = true ↔ ∀ k, (t.lookup k).isSome = true ↔ k ∈ keys := by
  rw [hasKeys, Bool.and_eq_true, List.all_eq_true, List.all_eq_true]
  constructor
  · rintro ⟨hsub, hall⟩ k
    constructor
    · intro hk
      exact of_decide_eq_true (hsub k (AList.mem_keys.mpr (AList.lookup_isSome.mp hk)))
    · intro hk
      exact hall k hk
  · intro h
    constructor
    · intro k hk
      exact decide_eq_true ((h k).mp (AList.lookup_isSome.mpr (AList.mem_keys.mp hk)))
    · intro k hk
      exact (h k).mpr hk

end Table
end Library
end OpenstackPlatform
