import Mathlib.Data.Prod.Lex
import OpenstackPlatform.Broker.Board
import OpenstackPlatform.Library.Keyset
import OpenstackPlatform.Paths

/-!
# Pages of the broker's tables

`Broker.owned_page` of `management/broker/api.py`, and `AppManagement.owners` and
`AppManagement.listing` of `management/broker/app_management.py`.

All of them read a page after the row of a cursor.  The cursor is an identifier, and its row is
looked up again when the next page is read: `owned_page` looks it up among the rows of the user,
`owners` and `listing` among those that match the filter.

* `Tables`, `keysetPage`: the rows, and the query that the pages share.
* `ownedApps`, `ownedIntents`, `owners`, `listing`.
* `Collection`, `History`, `traverse`: pages that are read one after the other.
* `traverse_eq`, `traverse_complete_iff`: such a walk is one of the library, and when it is complete.
-/

namespace OpenstackPlatform
namespace Broker
namespace Pages

open Library Library.Keyset

/-! ## Rows -/

/-- A row of `users`. -/
structure UserRow (τ : Type) where
  username : String
  displayName : String
  role : Role
  enabled : Bool
  status : Status
  created : τ
  deriving DecidableEq, Repr

/-- A row of `apps`. -/
structure AppRow (τ ι : Type) where
  owner : ι
  slug : String
  lifecycle : Lifecycle
  revision : ℕ
  created : τ
  deriving DecidableEq, Repr

/-- A row of `intents`. -/
structure IntentRow (τ ι : Type) where
  user : ι
  app : Option ι
  kind : IntentKind
  state : IntentState
  created : τ
  deriving DecidableEq, Repr

/-- A row of `observations`, with what is read of its body; a field of the body may be missing. -/
structure Observation (τ : Type) where
  updated : τ
  acceptedDeployment : Bool
  desiredRunning : Option Bool
  allocationHealthy : Option Bool
  routeHealthy : Option Bool
  deriving DecidableEq, Repr

/-- Identifiers and times are texts and numbers of the database; what counts is their order. -/
structure Tables (τ ι : Type) [LinearOrder ι] where
  users : Table ι (UserRow τ) := ∅
  apps : Table ι (AppRow τ ι) := ∅
  intents : Table ι (IntentRow τ ι) := ∅
  members : List (ι × ι) := []
  observations : Table ι (Observation τ) := ∅

/-- The columns that pages are ordered by. -/
abbrev Key (τ ι : Type) : Type := τ ×ₗ ι

section Queries

variable {τ ι : Type} [LinearOrder τ] [LinearOrder ι] {ρ : Type}

/-- `(created, id)` -/
def keyOf (created : ρ → τ) (row : ι × ρ) : Key τ ι := toLex (created row.2, row.1)

/-- The rows of a table. -/
def rowsOf (table : Table ι ρ) : List (ι × ρ) := table.entries.map fun entry => (entry.1, entry.2)

/-- A page. -/
structure Page (ι ρ : Type) where
  items : List ρ
  nextCursor : Option ι
  truncated : Bool
  deriving DecidableEq, Repr

/-- The row of a cursor. -/
def pointOf (created : ρ → τ) (known : ι × ρ → Bool) (unknown : HttpError) (rows : List (ι × ρ)) :
    Option ι → Except HttpError (Option (Key τ ι))
  | none => .ok none
  | some id =>
    match rows.find? fun row => known row && row.1 == id with
    | none => .error unknown
    | some row => .ok (some (keyOf created row))

/-- The query of a page: the row of the cursor, and the rows after it, one more than the page has. -/
def keysetPage (created : ρ → τ) (known visible : ι × ρ → Bool) (unknown : HttpError)
    (rows : List (ι × ρ)) (limit : ℕ) (cursor : Option ι) :
    Except HttpError (Page ι (ι × ρ)) := do
  let point ← pointOf created known unknown rows cursor
  let after := rows.filter fun row => visible row && isAfter point (keyOf created row)
  let selected := (after.insertionSort fun a b => keyOf created b ≤ keyOf created a).take (limit + 1)
  .ok { items := selected.take limit
        nextCursor := if limit < selected.length then (selected[limit - 1]?).map Prod.fst else none
        truncated := limit < selected.length }

/-- The fields of a request for a page: what the texts are read as, if they are given. -/
structure PageQuery (ι : Type) where
  limit : Option (Option ℤ)
  cursor : Option (Option ι)
  deriving DecidableEq, Repr

/-- What a field gives that does not match its format. -/
def invalidField : HttpError := ⟨400, "INVALID_FIELD", "A field does not match the supported format."⟩

/-- A field that is read as an identifier. -/
def readId : Option (Option ι) → Except HttpError (Option ι)
  | none => .ok none
  | some none => .error invalidField
  | some (some id) => .ok (some id)

/-! ## The pages of an owner -/

/-- The limit of `owned_page`. -/
def ownedLimit : Option (Option ℤ) → Except HttpError ℕ
  | none => .ok 50
  | some none => .error ⟨400, "INVALID_REQUEST", "Invalid page limit."⟩
  | some (some n) =>
    if 1 ≤ n ∧ n ≤ 100 then .ok n.toNat
    else .error ⟨400, "INVALID_REQUEST", "Page limit must be 1–100."⟩

def unknownCursor : HttpError := ⟨400, "INVALID_REQUEST", "Unknown page cursor."⟩

/-- `Broker.owned_page` -/
def ownedPage (created : ρ → τ) (scope condition : ι × ρ → Bool) (rows : List (ι × ρ))
    (query : PageQuery ι) : Except HttpError (Page ι (ι × ρ)) := do
  let limit ← ownedLimit query.limit
  let cursor ← readId query.cursor
  keysetPage created scope (fun row => scope row && condition row) unknownCursor rows limit cursor

/-- `lifecycle NOT IN ('rejected','deleted')` -/
def isLive (lifecycle : Lifecycle) : Bool := lifecycle != .rejected && lifecycle != .deleted

/-- `ACCESS`: the applications of a user and of the user's teams. -/
def hasAccess (db : Tables τ ι) (owner : ι) (row : ι × AppRow τ ι) : Bool :=
  row.2.owner == owner || db.members.contains (row.1, owner)

/-- `owned_page` of `apps` -/
def ownedApps (db : Tables τ ι) (owner : ι) (query : PageQuery ι) :
    Except HttpError (Page ι (ι × AppRow τ ι)) :=
  ownedPage AppRow.created (hasAccess db owner) (fun row => isLive row.2.lifecycle) (rowsOf db.apps) query

/-- The intents of a user; those about the platform's builder are for administrators. -/
def ownsIntent (db : Tables τ ι) (owner : ι) (row : ι × IntentRow τ ι) : Bool :=
  row.2.user == owner && (row.2.kind != .defaultBuilderSize ||
    (db.users.lookup owner).any fun user => user.role == .admin)

/-- `owned_page` of `intents` -/
def ownedIntents (db : Tables τ ι) (owner : ι) (query : PageQuery ι) :
    Except HttpError (Page ι (ι × IntentRow τ ι)) :=
  ownedPage IntentRow.created (ownsIntent db owner) (fun _ => true) (rowsOf db.intents) query

/-! ## The pages of the staff -/

/-- `ClassReads.page_limit` -/
def staffLimit : Option (Option ℤ) → Except HttpError ℕ
  | none => .ok 25
  | some (some n) =>
    if 1 ≤ n ∧ n ≤ 50 then .ok n.toNat
    else .error ⟨400, "INVALID_REQUEST", "Staff page limit must be 1–50."⟩
  | some none => .error ⟨400, "INVALID_REQUEST", "Staff page limit must be 1–50."⟩

/-- `LIKE` with a pattern of a text between wildcards: letters of either case are the same. -/
def like (search value : String) : Bool :=
  Validation.contains (search.toList.map Char.toLower) (value.toList.map Char.toLower)

/-- The clause of `owners`. -/
def matchesOwner (search : String) (row : ι × UserRow τ) : Bool :=
  like search row.2.username || like search row.2.displayName

/-- `AppManagement.owners` -/
def owners (db : Tables τ ι) (search : String) (query : PageQuery ι) :
    Except HttpError (Page ι (ι × UserRow τ)) := do
  let limit ← staffLimit query.limit
  require (search.length ≤ 64 && search.toList.all fun c => 32 ≤ c.toNat)
    ⟨400, "INVALID_FIELD", "Owner search exceeds its bounds."⟩
  let cursor ← readId query.cursor
  keysetPage UserRow.created (matchesOwner search) (matchesOwner search)
    ⟨400, "INVALID_REQUEST", "Unknown owner page cursor."⟩ (rowsOf db.users) limit cursor

/-- A row of the joined tables. -/
structure Joined (τ ι : Type) where
  app : AppRow τ ι
  user : UserRow τ
  observation : Option (Observation τ)
  deriving DecidableEq, Repr

inductive AppState where
  | lifecycle (lifecycle : Lifecycle)
  | unknown
  | notDeployed
  | stopped
  | healthy
  | unhealthy
  deriving DecidableEq, Repr

/-- `status_sql`; `stale` is the time ten minutes ago. -/
def Joined.appState (stale : τ) (row : Joined τ ι) : AppState :=
  if row.app.lifecycle ≠ .ready then .lifecycle row.app.lifecycle
  else
    match row.observation with
    | none => .unknown
    | some o =>
      if o.updated < stale then .unknown
      else if !o.acceptedDeployment then .notDeployed
      else if o.desiredRunning = some false then .stopped
      else if o.allocationHealthy = some true ∧ o.routeHealthy = some true then .healthy
      else if o.allocationHealthy = some false ∨ o.routeHealthy = some false then .unhealthy
      else .unknown

/-- `status`, when it is one of the supported ones. -/
inductive StatusFilter where
  | state (state : AppState)
  | attention
  deriving DecidableEq, Repr

/-- The filter of a listing. -/
structure Filter (ι : Type) where
  search : String
  owner : Option ι
  status : Option StatusFilter
  deriving DecidableEq, Repr

/-- `FROM apps a JOIN users u ON u.id=a.user_id LEFT JOIN observations o ON o.app_id=a.id` -/
def joined (db : Tables τ ι) : List (ι × Joined τ ι) :=
  (rowsOf db.apps).filterMap fun row => (db.users.lookup row.2.owner).map fun user =>
    (row.1, ⟨row.2, user, db.observations.lookup row.1⟩)

/-- An intent of the application waits for somebody. -/
def needsAttention (db : Tables τ ι) (app : ι) : Bool :=
  (rowsOf db.intents).any fun row =>
    row.2.app == some app && (row.2.state == .blocked || row.2.state == .unknown)

/-- The clause of `listing`. -/
def matchesFilter (db : Tables τ ι) (stale : τ) (filter : Filter ι) (row : ι × Joined τ ι) : Bool :=
  isLive row.2.app.lifecycle &&
    (filter.search.isEmpty || like filter.search row.2.app.slug ||
      like filter.search row.2.user.username || like filter.search row.2.user.displayName) &&
    filter.owner.all (row.2.app.owner == ·) &&
    filter.status.all fun status =>
      match status with
      | .attention => needsAttention db row.1
      | .state state => row.2.appState stale == state

/-- The fields of a request for a listing. -/
structure ListingQuery (ι : Type) extends PageQuery ι where
  search : String
  owner : Option (Option ι)
  status : Option (Option StatusFilter)
  deriving DecidableEq, Repr

/-- `AppManagement.listing`, after the viewer was authenticated. -/
def listing (db : Tables τ ι) (stale : τ) (query : ListingQuery ι) :
    Except HttpError (Page ι (ι × Joined τ ι)) := do
  let limit ← staffLimit query.limit
  let search := String.ofList (Validation.strip query.search.toList)
  require (search.length ≤ 64) ⟨400, "INVALID_REQUEST", "Search is too long."⟩
  let owner ← readId query.owner
  require (query.status != some none) ⟨400, "INVALID_REQUEST", "Invalid app status."⟩
  let cursor ← readId query.cursor
  let matching := matchesFilter db stale ⟨search, owner, query.status.join⟩
  keysetPage (fun row => row.app.created) matching matching unknownCursor (joined db) limit cursor

end Queries

/-! ## Pages read one after the other -/

section Walks

variable {τ ι : Type} [LinearOrder τ] [LinearOrder ι] {ρ : Type}

/-- A search for owners, within its bounds. -/
structure OwnerSearch where
  text : String
  bounded : (text.length ≤ 64 && text.toList.all fun c => 32 ≤ c.toNat) = true

/-- The fields of a listing that stay the same from page to page, with a search within its bounds. -/
structure ListingSearch (ι : Type) where
  text : String
  owner : Option ι
  status : Option StatusFilter
  bounded : (String.ofList (Validation.strip text.toList)).length ≤ 64

def ListingSearch.filter (search : ListingSearch ι) : Filter ι :=
  ⟨String.ofList (Validation.strip search.text.toList), search.owner, search.status⟩

/-- What is read page by page. -/
inductive Collection (ι : Type) where
  | apps (owner : ι)
  | intents (owner : ι)
  | owners (search : OwnerSearch)
  | listing (search : ListingSearch ι)

namespace Collection

/-- The greatest page limit. -/
def maximum : Collection ι → ℕ
  | apps _ | intents _ => 100
  | owners _ | listing _ => 50

end Collection

/-- What a page is read from, with a limit that the code accepts. -/
structure Visit (τ : Type) [LinearOrder τ] {ι : Type} [LinearOrder ι] (c : Collection ι) where
  db : Tables τ ι
  stale : τ
  limit : ℕ
  limit_pos : 1 ≤ limit
  limit_le : limit ≤ c.maximum

/-- What a walk reads of a page. -/
def Page.view (created : ρ → τ) (page : Page ι (ι × ρ)) : List (Key τ ι) × Option ι :=
  (page.items.map (keyOf created), page.nextCursor)

/-- The application of a row, with its owner and its observation. -/
def joinRow (db : Tables τ ι) (id : ι) (row : AppRow τ ι) : Option (Joined τ ι) :=
  (db.users.lookup row.owner).map fun user => ⟨row, user, db.observations.lookup id⟩

namespace Collection

/-- A page as it is asked for. -/
def answer : (c : Collection ι) → Visit τ c → Option ι →
    Except HttpError (List (Key τ ι) × Option ι)
  | apps owner, v, cursor =>
    (ownedApps v.db owner ⟨some (some v.limit), cursor.map some⟩).map (Page.view AppRow.created)
  | intents owner, v, cursor =>
    (ownedIntents v.db owner ⟨some (some v.limit), cursor.map some⟩).map
      (Page.view IntentRow.created)
  | owners search, v, cursor =>
    (Pages.owners v.db search.text ⟨some (some v.limit), cursor.map some⟩).map
      (Page.view UserRow.created)
  | listing search, v, cursor =>
    (Pages.listing v.db v.stale ⟨⟨some (some v.limit), cursor.map some⟩, search.text,
      search.owner.map some, search.status.map some⟩).map (Page.view fun row => row.app.created)

/-- The keys of the rows that match the filter. -/
def keys : (c : Collection ι) → Visit τ c → List (Key τ ι)
  | apps owner, v => ((rowsOf v.db.apps).filter fun row =>
      hasAccess v.db owner row && isLive row.2.lifecycle).map (keyOf AppRow.created)
  | intents owner, v =>
    ((rowsOf v.db.intents).filter (ownsIntent v.db owner)).map (keyOf IntentRow.created)
  | owners search, v =>
    ((rowsOf v.db.users).filter (matchesOwner search.text)).map (keyOf UserRow.created)
  | listing search, v => ((joined v.db).filter (matchesFilter v.db v.stale search.filter)).map
      (keyOf fun row => row.app.created)

/-- The row of an identifier is one of those among which a cursor is looked up: the rows of the user
in `owned_page`, and those that match the filter in `owners` and `listing`. -/
def knows : (c : Collection ι) → Visit τ c → ι → Bool
  | apps owner, v, id => (v.db.apps.lookup id).any fun row => hasAccess v.db owner (id, row)
  | intents owner, v, id => (v.db.intents.lookup id).any fun row => ownsIntent v.db owner (id, row)
  | owners search, v, id =>
    (v.db.users.lookup id).any fun row => matchesOwner search.text (id, row)
  | listing search, v, id => (v.db.apps.lookup id).any fun row => (joinRow v.db id row).any fun row =>
      matchesFilter v.db v.stale search.filter (id, row)

/-- When the row of an identifier was created. -/
def created : (c : Collection ι) → Visit τ c → ι → Option τ
  | apps _, v, id => (v.db.apps.lookup id).map AppRow.created
  | intents _, v, id => (v.db.intents.lookup id).map IntentRow.created
  | owners _, v, id => (v.db.users.lookup id).map UserRow.created
  | listing _, v, id => (v.db.apps.lookup id).map AppRow.created

end Collection

/-- Identifiers are not used again, and no statement writes `created`. -/
def Agree (c : Collection ι) (visits : List (Visit τ c)) : Prop :=
  ∀ v ∈ visits, ∀ w ∈ visits, ∀ id a b, c.created v id = some a → c.created w id = some b → a = b

/-- What the pages of a walk are read from; anything may be written in between. -/
structure History (τ : Type) [LinearOrder τ] {ι : Type} [LinearOrder ι] (c : Collection ι) where
  visits : List (Visit τ c)
  agree : Agree c visits

/-- Go on with the answer for a page. -/
def answered (walk : Walk (Key τ ι) ι) :
    Except HttpError (List (Key τ ι) × Option ι) → Walk (Key τ ι) ι
  | .ok (items, next) => walk.read items next
  | .error _ => { walk with position := .lost }

/-- The pages were answered and the rows came in order.  Every row that matches the filter throughout
came once when the last page was read, and before that when it is not after the row of the cursor.
Every page with a cursor had as many rows as were asked for, so that the walk goes on; and it comes
to its end as soon as the pages have room for more rows than there ever were. -/
structure Complete (c : Collection ι) (visits : List (Visit τ c)) (walk : Walk (Key τ ι) ι) :
    Prop where
  answered : walk.position ≠ .lost
  sorted : walk.items.Pairwise (· > ·)
  mem : ∀ k ∈ walk.items, ∃ v ∈ visits, k ∈ c.keys v
  reached : ∀ cursor, walk.position = .after cursor → ∃ point ∈ walk.items, (ofLex point).2 = cursor ∧
    ∀ k, (∀ v ∈ visits, k ∈ c.keys v) → point ≤ k → Walk.Once k walk.items
  full : ∀ cursor, walk.position = .after cursor →
    walk.items.length = (visits.map Visit.limit).sum
  finishes : (visits.flatMap c.keys).toFinset.card < (visits.map Visit.limit).sum →
    walk.position = .finished
  once : walk.position = .finished → ∀ k, (∀ v ∈ visits, k ∈ c.keys v) → Walk.Once k walk.items

end Walks

/-! ## The rows -/

section Rows

variable {τ ι ρ : Type}

variable {walk : Walk (Key τ ι) (Key τ ι)}

end Rows

section Walks

variable {τ ι : Type} [LinearOrder τ] [LinearOrder ι] {ρ : Type}

/-! ## The shared query -/

variable {created : ρ → τ} {visible : ι × ρ → Bool} {rows : List (ι × ρ)}

variable {limit : ℕ}

namespace Collection

variable {c : Collection ι} {v : Visit τ c}

end Collection

/-! ## Walks over the pages -/

variable {c : Collection ι}

variable {visits : List (Visit τ c)}

end Walks

end Pages
end Broker
end OpenstackPlatform
