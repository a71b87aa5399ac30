import OpenstackPlatform.Broker.Journal
import OpenstackPlatform.Broker.Portal
import OpenstackPlatform.Validation

/-!
# The people of an application

Owners, members and staff act on an application by requests that first authenticate, then read the
application and the access to it, and write in a transaction of their own: each of these is a step,
and the steps of different requests interleave with each other, with the sign-in portal and with the
journal.  `Broker.record` checks the session and the access again in the transaction that it writes
in, and so do `reassign` and `resume`; `Members.add` and `Members.remove` use what the request read
before.  An intent for the default builder size belongs to no application and has no step here.
-/

namespace OpenstackPlatform
namespace Broker

open Library

/-- `MAXIMUM_MEMBERS` -/
def maximumMembers : Nat := 10

/-- `app["access"]` -/
inductive Access where
  | owner
  | member
  | admin
  deriving DecidableEq, Repr

/-- Who a request has authenticated as, and for what; `staff` is `app_management.context`, with
whether it is for a deletion. -/
structure Actor where
  sid : SessionId
  user : UserId
  app : Option AppId
  staff : Option Bool
  deriving DecidableEq, Repr

/-- A request between its transactions. -/
inductive TeamRequest where
  | authenticated (actor : Actor)
  | loaded (actor : Actor) (app : AppId) (owner : UserId) (access : Access)
  deriving DecidableEq, Repr

def appNotFound : HttpError := ⟨404, "NOT_FOUND", "Application not found."⟩

/-- The kind of session that a request needs. -/
def Actor.kind (actor : Actor) : Option Role := if actor.staff.isSome then some .staff else none

/-- The kind of session that its changes need. -/
def Actor.role (actor : Actor) : Option Role :=
  actor.staff.map fun deletion => if deletion then .admin else .staff

namespace Database

/-- The account of a name: those of the class come first, then those of the portal, whose names do
not distinguish capitals. -/
def candidate (db : Database) (name : String) : Option UserId :=
  let named := db.users.entries.filter fun e =>
    e.2.enabled && e.2.status == .active && (e.2.username == name ||
      e.2.isLocal && e.2.username.map Char.toLower == name.map Char.toLower)
  ((named.filter fun e => !e.2.isLocal).map Sigma.fst).min? <|>
    ((named.filter fun e => e.2.isLocal).map Sigma.fst).min?

/-- `AppManagement.check_owner` -/
def checkOwner (db : Database) (owner : UserId) : Except HttpError Unit :=
  require ((db.users.lookup owner).any fun user => user.enabled && user.status == .active)
    ⟨400, "INVALID_OWNER", "Choose an active, enabled account."⟩

end Database

/-- The check of an owner that the staff chose. -/
def Actor.checkOwner (actor : Actor) (db : Database) (owner : UserId) : Except HttpError Unit :=
  if actor.staff.isSome then db.checkOwner owner else .ok ()

namespace Board

/-- `ACCESS` -/
def hasAccess (b : Board) (app : AppId) (u : UserId) : Bool :=
  ((b.apps.lookup app).any fun row => row.owner == u) || (b.members.lookup (app, u)).isSome

/-- The number of members of an application. -/
def memberCount (b : Board) (app : AppId) : Nat :=
  b.members.sumOver fun key _ => if key.1 = app then 1 else 0

/-- `Broker.own`, its read: an administered application is anyone's, another one its people's. -/
def own (b : Board) (actor : Actor) (app : AppId) : Except HttpError (UserId × Access) := do
  let row ← found (b.apps.lookup app) appNotFound
  require (row.lifecycle != .rejected && (actor.staff.isSome || b.hasAccess app actor.user))
    appNotFound
  require (row.lifecycle != .deleted)
    ⟨410, "APPLICATION_DELETED", "This application was deleted by an administrator."⟩
  return (row.owner, if actor.staff.isSome then .admin
    else if row.owner = actor.user then .owner else .member)

/-- `Members.add`, with the owner and the access that the request has read. -/
def addMember (b : Board) (db : Database) (app : AppId) (owner : UserId) (access : Access)
    (name : String) : Except HttpError Board := do
  require (access != .member) ⟨403, "OWNER_ONLY", "Only the app’s owner can add people."⟩
  require (1 ≤ name.length && name.length ≤ 64 && !name.toList.head?.any Validation.isSpace &&
    !name.toList.getLast?.any Validation.isSpace) ⟨400, "INVALID_FIELD", "Enter a username."⟩
  let _ ← b.checkAppNotDeleted app
  let target ← found (db.candidate name)
    ⟨404, "ACCOUNT_NOT_REGISTERED", name ++
      " isn't registered yet. Ask them to sign in to the portal once, then add them."⟩
  require (target != owner) ⟨409, "ALREADY_OWNER", "This person owns the app."⟩
  if (b.members.lookup (app, target)).isSome then return b
  require (b.memberCount app < maximumMembers)
    ⟨409, "TEAM_FULL", "An app can have at most 10 members."⟩
  return { b with members := b.members.insert (app, target) () }

/-- `Members.remove` -/
def removeMember (b : Board) (app : AppId) (user : UserId) (access : Access) (target : UserId) :
    Except HttpError Board := do
  require (access != .member || target == user)
    ⟨403, "OWNER_ONLY", "Only the app’s owner can remove people."⟩
  let _ ← b.checkAppNotDeleted app
  require (b.members.lookup (app, target)).isSome
    ⟨404, "NOT_FOUND", "This person isn’t on the team."⟩
  return { b with members := b.members.erase (app, target) }

/-- Whether an application has an intent that is not settled. -/
def busy (b : Board) (app : AppId) : Bool :=
  (b.intents.find? fun _ row => row.app == some app && !row.state.settled).isSome

/-- `AppManagement.reassign`, after the check of the session. -/
def reassign (b : Board) (db : Database) (app : AppId) (owner expected : UserId) :
    Except HttpError Board := do
  let _ ← b.checkAppNotDeleted app
  db.checkOwner owner
  let row ← found (b.apps.lookup app) appNotFound
  require (row.owner == expected) ⟨409, "OWNER_CONFLICT", "Ownership changed; reload first."⟩
  require (!b.busy app)
    ⟨409, "APP_BUSY",
      "Finish the previous change in the app's Overview before changing the owner."⟩
  return { b with
    apps := b.apps.modify app fun row => { row with owner := owner }
    members := b.members.erase (app, owner) }

end Board

/-- `AppManagement.check` -/
def checkStaff (settings : Settings) (db : Database) (actor : Actor) (now : Nat) :
    Except HttpError Unit :=
  match actor.staff with
  | some true => do
    let _ ← checkedActor settings db actor.sid now true
  | some false => do
    let _ ← sessionRow settings db actor.sid now (some .staff)
  | none => .ok ()

/-- The check of the application that a request is about. -/
def checkContext (b : Board) : Option AppId → Except HttpError Unit
  | some app => do
    let _ ← b.checkAppNotDeleted app
  | none => .ok ()

/-- What `Broker.record` checks in the transaction that it writes in. -/
def authorize (settings : Settings) (db : Database) (b : Board) (actor : Actor) (now : Nat) :
    Except HttpError Unit := do
  checkStaff settings db actor now
  checkContext b actor.app
  let (row, _) ← sessionRow settings db actor.sid now none
  require (actor.staff.isSome || actor.app.all fun app => b.hasAccess app row.user) appNotFound

/-- Intents that only an administrator resumes. -/
def IntentKind.reviewed : IntentKind → Bool
  | defaultBuilderSize | storageLimits | appDelete => true
  | _ => false

/-- The check of the administrator that resumes an intent. -/
def checkReviewer (settings : Settings) (db : Database) (actor : Actor) (kind : IntentKind)
    (now : Nat) : Except HttpError Unit :=
  if kind.reviewed then do
    let _ ← checkedActor settings db actor.sid now (kind == .appDelete)
  else .ok ()

/-- The check of the access to the application of an intent that is resumed. -/
def checkAccess (settings : Settings) (db : Database) (b : Board) (actor : Actor) (row : Intent)
    (privileged : Bool) (now : Nat) : Except HttpError Unit :=
  if row.portalAdmin then do
    let _ ← sessionRow settings db actor.sid now (some .staff)
  else require (privileged || row.kind == .createApp ||
    row.app.any fun app => b.hasAccess app actor.user) appNotFound

/-- `Broker.resume`, what it checks before `Board.resume`. -/
def authorizeResume (settings : Settings) (db : Database) (b : Board) (actor : Actor)
    (i : IntentId) (now : Nat) : Except HttpError Unit := do
  let (session, _) ← sessionRow settings db actor.sid now none
  let privileged := session.kind == .staff || session.kind == .admin
  let row ← found (b.intents.lookup i) ⟨404, "NOT_FOUND", "Operation not found."⟩
  require (privileged || row.user == actor.user || row.app.any fun app => b.hasAccess app actor.user)
    ⟨404, "NOT_FOUND", "Operation not found."⟩
  checkReviewer settings db actor row.kind now
  require (!(row.app.bind fun app => b.apps.lookup app).any fun app => app.lifecycle = .deleted)
    ⟨410, "APPLICATION_DELETED", "This application was deleted by an administrator."⟩
  checkAccess settings db b actor row privileged now

/-! ## The steps -/

/-- The portal, the journal, and the requests that act on applications. -/
structure Team where
  portal : Portal := {}
  journal : Journal := {}
  requests : Table Nat TeamRequest := ∅

/-- One transaction, or one read of a request. -/
inductive TeamLabel where
  | portal (l : Label)
  | take (flight : Nat) (i : IntentId) (secret authorized : Bool) (now timeout : Nat)
  | answer (flight : Nat) (reply : Option Reply)
  | observeDeleted (app : AppId)
  | authenticate (r : Nat) (sid : SessionId) (app : Option AppId) (staff : Option Bool) (now : Nat)
  | own (r : Nat)
  | addMember (r : Nat) (name : String) (now : Nat)
  | removeMember (r : Nat) (target : UserId) (now : Nat)
  | reassign (r : Nat) (owner expected : UserId) (now : Nat)
  | request (r : Nat) (i : IntentId) (intent : Intent) (now : Nat)
  | save (r : Nat) (i : IntentId) (revision : Nat) (configuration : Configuration) (now : Nat)
  | create (r : Nat) (i : IntentId) (app : AppId) (owner : UserId) (now : Nat)
  | adopt (r : Nat) (i : IntentId) (app : AppId) (owner : UserId) (revision : Nat)
      (configuration : Configuration) (now : Nat)
  | resume (r : Nat) (i : IntentId) (now : Nat)

/-- The request that a label is about, and its clock. -/
def TeamLabel.actor : TeamLabel → Option (Nat × Nat)
  | addMember r _ now | removeMember r _ now | reassign r _ _ now | request r _ _ now
  | save r _ _ _ now | create r _ _ _ now | adopt r _ _ _ _ _ now | resume r _ now => some (r, now)
  | _ => none

namespace Team

variable (crypto : Crypto) (settings : Settings)

/-- Commit new tables, as the last transaction of a request. -/
def commit (t : Team) (r : Nat) (board : Except HttpError Board) : Option Team :=
  board.toOption.map fun b =>
    { t with journal := { t.journal with board := b }, requests := t.requests.erase r }

/-- A transaction of a request that has read its application. -/
def loaded (t : Team) (r : Nat)
    (transaction : Actor → AppId → UserId → Access → Except HttpError Board) : Option Team :=
  match t.requests.lookup r with
  | some (.loaded actor app owner access) => t.commit r (transaction actor app owner access)
  | _ => none

/-- A transaction of a request that has authenticated only. -/
def authenticated (t : Team) (r : Nat) (transaction : Actor → Except HttpError Board) :
    Option Team :=
  match t.requests.lookup r with
  | some (.authenticated actor) => t.commit r (transaction actor)
  | _ => none

/-- An insertion that the tables can refuse. -/
def inserted (b : Option Board) : Except HttpError Board :=
  found b ⟨409, "IDEMPOTENCY_CONFLICT", "This request key already belongs to a different action."⟩

/-- What the transaction of a label commits. -/
def next (t : Team) : TeamLabel → Option Team
  | .portal l => (t.portal.next crypto settings l).map fun (p, _) => { t with portal := p }
  | .take f i secret authorized now timeout =>
    (t.journal.next (.take f i secret authorized now timeout)).map fun j => { t with journal := j }
  | .answer f reply => (t.journal.next (.answer f reply)).map fun j => { t with journal := j }
  | .observeDeleted app =>
    (t.journal.next (.observeDeleted app)).map fun j => { t with journal := j }
  | .authenticate r sid app staff now => do
    let row ← t.portal.db.sessions.lookup sid
    let actor : Actor := ⟨sid, row.user, app, staff⟩
    let (portal, _) ← t.portal.next crypto settings (.authenticate sid actor.kind true now)
    return { t with portal := portal, requests := t.requests.insert r (.authenticated actor) }
  | .own r => match t.requests.lookup r with
    | some (.authenticated actor) => actor.app.bind fun app =>
      (t.journal.board.own actor app).toOption.map fun (owner, access) =>
        { t with requests := t.requests.insert r (.loaded actor app owner access) }
    | _ => none
  | .addMember r name _ => t.loaded r fun _ app owner access =>
    t.journal.board.addMember t.portal.db app owner access name
  | .removeMember r target _ => t.loaded r fun actor app _ access =>
    t.journal.board.removeMember app actor.user access target
  | .reassign r owner expected now => t.loaded r fun actor app _ _ => do
    require actor.staff.isSome appNotFound
    checkStaff settings t.portal.db actor now
    t.journal.board.reassign t.portal.db app owner expected
  | .request r i intent now => t.loaded r fun actor app _ _ => do
    authorize settings t.portal.db t.journal.board actor now
    inserted (t.journal.board.record i
      { intent with user := actor.user, app := some app, portalAdmin := actor.staff.isSome })
  | .save r i revision configuration now => t.loaded r fun actor app _ _ => do
    authorize settings t.portal.db t.journal.board actor now
    inserted (t.journal.board.save i app actor.user actor.staff.isSome revision configuration)
  | .create r i app owner now => t.authenticated r fun actor => do
    let owner := if actor.staff.isSome then owner else actor.user
    actor.checkOwner t.portal.db owner
    authorize settings t.portal.db t.journal.board { actor with app := none } now
    inserted (t.journal.board.create i app owner actor.user actor.staff.isSome)
  | .adopt r i app owner revision configuration now => t.authenticated r fun actor => do
    require actor.staff.isSome appNotFound
    authorize settings t.portal.db t.journal.board { actor with app := none } now
    t.portal.db.checkOwner owner
    inserted (t.journal.board.adopt i app owner actor.user revision configuration)
  | .resume r i now => t.authenticated r fun actor => do
    authorizeResume settings t.portal.db t.journal.board actor i now
    inserted (t.journal.board.resume i)

/-- The step relation. -/
def step (t : Team) (l : TeamLabel) (t' : Team) : Prop := t.next crypto settings l = some t'

end Team
end Broker
end OpenstackPlatform
