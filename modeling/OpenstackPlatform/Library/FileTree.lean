import Mathlib.Data.List.Basic
import Mathlib.Data.List.Nodup

/-!
# Trees of files

What a directory holds, as a scan of it gives the entries: a name with the content of a file, a
name of something else, or a name with what that directory holds.

* `Listing`, `Kind`: the tree, and what a path names in it.
* `find?`, `under?`: looking up a path, and a directory.
* `paths`: every path below a directory.
* `mem_paths`, `find?_append`: the paths are those that name something.
-/

namespace OpenstackPlatform.Library

/-- The entries of a directory. -/
inductive Listing (ν α : Type) where
  | nil
  | file (name : ν) (content : α) (rest : Listing ν α)
  | other (name : ν) (rest : Listing ν α)
  | directory (name : ν) (entries rest : Listing ν α)

namespace Listing

/-- What a path names. -/
inductive Kind (α : Type) where
  | file (content : α)
  | other
  | directory
  deriving DecidableEq

variable {ν α : Type}

/-- The names in a directory. -/
def names : Listing ν α → List ν
  | nil => []
  | file name _ rest => name :: rest.names
  | other name rest => name :: rest.names
  | directory name _ rest => name :: rest.names

/-- No directory has two entries of one name. -/
def Distinct : Listing ν α → Prop
  | nil => True
  | file name _ rest => name ∉ rest.names ∧ rest.Distinct
  | other name rest => name ∉ rest.names ∧ rest.Distinct
  | directory name entries rest => name ∉ rest.names ∧ entries.Distinct ∧ rest.Distinct

/-- The paths below a directory. -/
def paths : Listing ν α → List (List ν)
  | nil => []
  | file name _ rest => [name] :: rest.paths
  | other name rest => [name] :: rest.paths
  | directory name entries rest => [name] :: entries.paths.map (name :: ·) ++ rest.paths

variable [DecidableEq ν]

/-- What a path names; the empty path names the directory itself. -/
@[grind =] def find? : Listing ν α → List ν → Option (Kind α)
  | _, [] => some .directory
  | nil, _ :: _ => none
  | file name content rest, n :: path =>
    if n = name then if path = [] then some (.file content) else none else rest.find? (n :: path)
  | other name rest, n :: path =>
    if n = name then if path = [] then some .other else none else rest.find? (n :: path)
  | directory name entries rest, n :: path =>
    if n = name then entries.find? path else rest.find? (n :: path)

/-- The entries of the directory at a path. -/
@[grind =] def under? : Listing ν α → List ν → Option (Listing ν α)
  | listing, [] => some listing
  | nil, _ :: _ => none
  | file name _ rest, n :: path => if n = name then none else rest.under? (n :: path)
  | other name rest, n :: path => if n = name then none else rest.under? (n :: path)
  | directory name entries rest, n :: path =>
    if n = name then entries.under? path else rest.under? (n :: path)

@[simp] theorem find?_nil (listing : Listing ν α) : listing.find? [] = some .directory := by
  cases listing <;> rfl

@[simp] theorem under?_nil (listing : Listing ν α) : listing.under? [] = some listing := by
  cases listing <;> rfl

/-- What a path below a directory names is what it names from there. -/
theorem find?_append {n : ν} {path : List ν} : ∀ (listing : Listing ν α) (above : List ν),
    listing.find? (above ++ n :: path) = (listing.under? above).bind (·.find? (n :: path))
  | listing, [] => by
    rw [List.nil_append, under?_nil, Option.bind_some]
  | nil, _ :: _ => rfl
  | file name content rest, m :: above => by
    have ih : rest.find? (m :: above ++ n :: path) = _ := find?_append rest (m :: above)
    rw [List.cons_append] at ih ⊢
    rw [find?, under?]
    split
    · rw [if_neg (by simp), Option.bind_none]
    · exact ih
  | other name rest, m :: above => by
    have ih : rest.find? (m :: above ++ n :: path) = _ := find?_append rest (m :: above)
    rw [List.cons_append] at ih ⊢
    rw [find?, under?]
    split
    · rw [if_neg (by simp), Option.bind_none]
    · exact ih
  | .directory name entries rest, m :: above => by
    have ih : rest.find? (m :: above ++ n :: path) = _ := find?_append rest (m :: above)
    rw [List.cons_append] at ih ⊢
    rw [find?, under?]
    split
    · exact find?_append entries above
    · exact ih

theorem Distinct.of_under? {found : Listing ν α} : ∀ {listing : Listing ν α} {above : List ν},
    listing.Distinct → listing.under? above = some found → found.Distinct
  | listing, [], hdistinct, h => by
    rw [under?_nil] at h
    cases h
    exact hdistinct
  | file name _ rest, n :: above, hdistinct, h => by
    rw [under?] at h
    split at h
    · cases h
    · exact hdistinct.2.of_under? h
  | other name rest, n :: above, hdistinct, h => by
    rw [under?] at h
    split at h
    · cases h
    · exact hdistinct.2.of_under? h
  | .directory name entries rest, n :: above, hdistinct, h => by
    rw [under?] at h
    split at h
    · exact hdistinct.2.1.of_under? h
    · exact hdistinct.2.2.of_under? h

/-- A name that the directory does not have names nothing. -/
theorem find?_of_notMem_names {n : ν} {path : List ν} : ∀ {listing : Listing ν α},
    n ∉ listing.names → listing.find? (n :: path) = none
  | nil, _ => rfl
  | file name _ rest, h => by
    rw [names, List.mem_cons, not_or] at h
    rw [find?, if_neg h.1, find?_of_notMem_names h.2]
  | other name rest, h => by
    rw [names, List.mem_cons, not_or] at h
    rw [find?, if_neg h.1, find?_of_notMem_names h.2]
  | .directory name _ rest, h => by
    rw [names, List.mem_cons, not_or] at h
    rw [find?, if_neg h.1, find?_of_notMem_names h.2]

/-- The paths below a directory are those that name something. -/
theorem mem_paths {path : List ν} : ∀ {listing : Listing ν α}, listing.Distinct →
    (path ∈ listing.paths ↔ path ≠ [] ∧ listing.find? path ≠ none)
  | nil, _ => by
    cases path <;> simp [paths, find?]
  | file name content rest, hdistinct => by
    rw [paths, List.mem_cons, mem_paths hdistinct.2]
    rcases path with _ | ⟨n, path⟩
    · simp
    · rw [find?]
      by_cases hn : n = name
      · subst hn
        rw [find?_of_notMem_names hdistinct.1]
        by_cases hpath : path = [] <;> simp [hpath]
      · simp [hn]
  | other name rest, hdistinct => by
    rw [paths, List.mem_cons, mem_paths hdistinct.2]
    rcases path with _ | ⟨n, path⟩
    · simp
    · rw [find?]
      by_cases hn : n = name
      · subst hn
        rw [find?_of_notMem_names hdistinct.1]
        by_cases hpath : path = [] <;> simp [hpath]
      · simp [hn]
  | .directory name entries rest, hdistinct => by
    rw [paths, List.cons_append, List.mem_cons, List.mem_append, List.mem_map,
      mem_paths hdistinct.2.2]
    rcases path with _ | ⟨n, path⟩
    · simp
    · rw [find?]
      by_cases hn : n = name
      · subst hn
        have hbelow : path ∈ entries.paths ↔ _ := mem_paths hdistinct.2.1
        rw [find?_of_notMem_names hdistinct.1]
        by_cases hpath : path = [] <;> simp [hpath, hbelow]
      · have hname : name ≠ n := fun h => hn h.symm
        simp [hn, hname]

end Listing

end OpenstackPlatform.Library
