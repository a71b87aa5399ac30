import OpenstackPlatform.Broker.Accounts
import OpenstackPlatform.Library.Run

/-!
# The portal's sign-in as a transition system

Every step of the portal is one committed transaction of one request; the steps of different
requests interleave freely, and a request that stops simply takes no further step.  A flow with two
transactions leaves what it keeps in between under the request's own name (`Request`).

Identifiers, tokens, secrets and sessions are drawn at random: a step may draw only values that were
never drawn before (`Portal.drawn`).  A recognized-browser cookie carries a signature of the broker's
key, so a cookie that verifies is one that was signed (`Portal.signed`).  `Portal.factored` remembers
the accounts that have had a confirmed second factor; the source does not store it.

A step is labelled with what it did with credentials, in order (`Event`).
-/

namespace OpenstackPlatform
namespace Broker

open Library

/-- What can be presented to the portal as proof of who one is, or what an earlier transaction of the
same request has established. -/
inductive Credential where
  | session (sid : SessionId)
  | link (id : TokenId)
  | enrollment (handle : Handle)
  | device (d : Device)
  | verification (request : Nat)
  deriving DecidableEq, Repr

/-- What a transaction does with credentials. -/
inductive Event where
  | issued (u : UserId) (c : Credential)
  | accepted (u : UserId) (c : Credential)
  | changed (u : UserId)
  | enrolled (id : TokenId) (handle : Handle)
  | completed (handle : Handle)
  | wrongLinkCode (id : TokenId)
  | wrongEnrollmentCode (handle : Handle)
  deriving DecidableEq, Repr

/-- A request between two of its transactions. -/
inductive Request where
  | enrolling (e : Enrolling)
  | stepUp (sid : SessionId) (username : String)
  | verifying (v : Verifying) (device : Option Device) (session : Option SessionId)
  | verified (v : Verified) (session : Option SessionId)

/-- The portal: its tables, the operator's enrollment file, the requests that are under way, and what
has happened. -/
structure Portal where
  db : Database := {}
  file : Option BootstrapDocument := none
  requests : Nat → Option Request := fun _ => none
  drawn : Nat → Bool := fun _ => false
  signed : Device → Bool := fun _ => false
  factored : UserId → Bool := fun _ => false

/-- One transaction, with its arguments, the clock and the values it draws. -/
inductive Label where
  | issueBootstrap (link : Link) (now : Nat)
  | openEnrollment (r : Nat) (body : EnrollBody) (binder now : Nat)
  | commitEnrollment (r : Nat) (draw : EnrollDraw) (now : Nat)
  | finish (handle : Handle) (binder : Nat) (totp : Option String) (session : SessionId)
      (old : Option SessionId) (device : Option Device) (fresh now : Nat)
  | recognize (u : UserId) (device : Device) (now : Nat)
  | signIn (r : Nat) (username password : String) (device : Option Device) (lockedOut : Bool)
      (now : Nat)
  | stepUp (r : Nat) (sid : SessionId) (now : Nat)
  | readStepUp (r : Nat) (password : String) (device : Option Device) (lockedOut : Bool) (now : Nat)
  | verify (r : Nat) (code : Option String) (lockedOut : Bool) (now : Nat)
  | rehash (r : Nat) (replacement : String)
  | login (r : Nat) (session : SessionId) (old : Option SessionId) (device : Option Device)
      (fresh now : Nat)
  | reauthenticate (r : Nat) (now : Nat)
  | authenticate (sid : SessionId) (kind : Option Role) (touch : Bool) (now : Nat)
  | logout (sid : SessionId)
  | create (sid : SessionId) (name : String) (role : Role) (draw : LinkDraw) (now : Nat)
  | change (sid : SessionId) (u : UserId) (action : Action) (link : Link) (now : Nat)
  | commons (subject : Nat) (username : String) (fresh : UserId) (session : SessionId)
      (old : Option SessionId) (now : Nat)

/-- The values that a step draws; a new request's name is one of them. -/
def Label.draws : Label → List Nat
  | issueBootstrap link _ => [link.id, link.token]
  | openEnrollment r _ _ _ => [r]
  | commitEnrollment _ draw _ => [draw.user, draw.subject, draw.handle, draw.secret]
  | finish _ _ _ session _ _ fresh _ => [session, fresh]
  | signIn r _ _ _ _ _ => [r]
  | stepUp r _ _ => [r]
  | login _ session _ _ fresh _ => [session, fresh]
  | create _ _ _ draw _ => [draw.user, draw.subject, draw.link.id, draw.link.token]
  | change _ _ _ link _ => [link.id, link.token]
  | commons _ _ fresh session _ _ => [fresh, session]
  | _ => []

namespace Portal

/-- Leave something under the name of a request, or nothing. -/
def setRequest (p : Portal) (r : Nat) (request : Option Request) : Portal :=
  { p with requests := fun s => if s = r then request else p.requests s }

/-- Sign a recognized-browser cookie. -/
def sign (p : Portal) (d : Device) : Portal :=
  { p with signed := fun e => e == d || p.signed e }

/-- The acceptance of a recognized-browser cookie, where it is valid. -/
def recognized (p : Portal) (device : Option Device) (u : UserId) (user : User) (now : Nat) :
    List Event :=
  match device with
  | some d => if deviceValid p.signed device u user now then [.accepted u (.device d)] else []
  | none => []

/-- The recognition of the browser at the start of a sign-in. -/
def recognizedAccount (p : Portal) (device : Option Device) (username : String) (now : Nat) :
    List Event :=
  match p.db.account username with
  | some (u, user, _) => p.recognized device u user now
  | none => []

/-- Commit a new session with the cookie that comes with it. -/
def issueSession (p : Portal) (db : Database) (u : UserId) (user : User) (session : SessionId)
    (device : Option Device) (fresh now : Nat) : Portal × List Event :=
  let d := issueDevice p.signed device u user fresh now
  ({ p with db := db }.sign d,
    [.issued u (.session session), .issued u (.device d)])

/-- The acceptance of a link that is an account's. -/
def acceptedLink (resolved : Resolved) (id : TokenId) : List Event :=
  match resolved.user with
  | some (u, _) => [.accepted u (.link id)]
  | none => []

variable (crypto : Crypto) (settings : Settings)

/-- `enroll`, first transaction. -/
def openEnrollment (p : Portal) (r : Nat) (body : EnrollBody) (binder now : Nat) :
    Except HttpError (Portal × List Event) := do
  let resolved ← found (resolveToken p.db p.file body.link now) tokenInvalid
  let (db, enrolling) ← Broker.openEnrollment crypto p.db p.file body binder now
  let accepted := acceptedLink resolved body.link.id
  return match enrolling with
    | some e => ({ p with db := db }.setRequest r (some (.enrolling e)), accepted)
    | none => ({ p with db := db }, accepted ++ [.wrongLinkCode body.link.id])

/-- `enroll`, second transaction. -/
def commitEnrollment (p : Portal) (r : Nat) (draw : EnrollDraw) (now : Nat) :
    Except HttpError (Portal × List Event) :=
  match p.requests r with
  | some (.enrolling e) => do
    let resolved ← found (resolveToken p.db p.file e.link now) tokenInvalid
    let (_, u, _) ← enrollUser p.db e resolved draw
    let db ← Broker.commitEnrollment p.db p.file e draw now
    return ({ p with db := db }.setRequest r none,
      acceptedLink resolved e.link.id ++ [.enrolled e.link.id draw.handle, .issued u (.enrollment draw.handle)])
  | _ => .error tokenInvalid

/-- `finish` -/
def finish (p : Portal) (handle : Handle) (binder : Nat) (totp : Option String)
    (session : SessionId) (old : Option SessionId) (device : Option Device) (fresh now : Nat) :
    Except HttpError (Portal × List Event) := do
  let row ← found (p.db.enrollments.lookup handle) tokenInvalid
  let (db, finished) ← Broker.finish crypto settings p.db handle binder totp session old now
  let accepted := Event.accepted row.user (.enrollment handle)
  match finished with
  | .wrongCode => return ({ p with db := db }, [accepted, .wrongEnrollmentCode handle])
  | .signIn => return ({ p with db := db }, [accepted, .completed handle, .changed row.user])
  | .session =>
    let user ← db.target row.user
    let (p, issued) := p.issueSession db row.user user session device fresh now
    return (p, [accepted, .completed handle, .changed row.user] ++ issued)

/-- `Auth.login`, last transaction. -/
def login (p : Portal) (r : Nat) (session : SessionId) (old : Option SessionId)
    (device : Option Device) (fresh now : Nat) : Except HttpError (Portal × List Event) :=
  match p.requests r with
  | some (.verified v none) => do
    require (!v.upgrade) invalidCredentials
    let (db, u, user) ← Broker.login settings p.db v session old now
    let (p', issued) := p.issueSession db u user session device fresh now
    return (p'.setRequest r none,
      .accepted u (.verification r) :: (p.recognized device u user now ++ issued))
  | _ => .error invalidCredentials

/-- `Accounts.reauthenticate`, last transaction. -/
def reauthenticate (p : Portal) (r now : Nat) : Except HttpError (Portal × List Event) :=
  match p.requests r with
  | some (.verified v (some sid)) => do
    require (!v.upgrade) invalidCredentials
    let (row, _) ← sessionRow settings p.db sid now (some .admin)
    let db ← Broker.reauthenticate settings p.db v sid now
    return ({ p with db := db }.setRequest r none,
      [.accepted v.user (.verification r), .accepted row.user (.session sid)])
  | _ => .error invalidCredentials

/-- `authenticate`, the transaction after the hash. -/
def verify (p : Portal) (r : Nat) (code : Option String) (lockedOut : Bool) (now : Nat) :
    Except HttpError (Portal × List Event) :=
  match p.requests r with
  | some (.verifying v device session) => do
    let (db, verified) ← verifySignIn crypto p.db v code lockedOut now
    return ({ p with db := db }.setRequest r (some (.verified verified session)),
      p.recognizedAccount device v.username now ++ [.issued verified.user (.verification r)])
  | _ => .error invalidCredentials

/-- `authenticate`, the transaction that raises the cost of the stored hash. -/
def rehash (p : Portal) (r : Nat) (replacement : String) :
    Except HttpError (Portal × List Event) :=
  match p.requests r with
  | some (.verified v session) => do
    require v.upgrade invalidCredentials
    let db ← Broker.rehash p.db v replacement
    return ({ p with db := db }.setRequest r (some (.verified { v with upgrade := false } session)),
      [.accepted v.user (.verification r)])
  | _ => .error invalidCredentials

/-- What the transaction of a label does and answers. -/
def effect (p : Portal) : Label → Except HttpError (Portal × List Event)
  | .issueBootstrap link now => .ok ({ p with file := some (.issue link now) }, [])
  | .openEnrollment r body binder now => p.openEnrollment crypto r body binder now
  | .commitEnrollment r draw now => p.commitEnrollment r draw now
  | .finish handle binder totp session old device fresh now =>
    p.finish crypto settings handle binder totp session old device fresh now
  | .recognize u device now => do
    let user ← p.db.target u
    require (user.enabled && user.status == .active) invalidCredentials
    return (p, p.recognized (some device) u user now)
  | .signIn r username password device lockedOut now =>
    .ok (p.setRequest r (some (.verifying (openSignIn p.db username password lockedOut) device none)),
      p.recognizedAccount device username now)
  | .stepUp r sid now => do
    let (row, user) ← sessionRow settings p.db sid now (some .admin)
    let db ← Broker.authenticate settings p.db sid now (some .admin) true
    return ({ p with db := db }.setRequest r (some (.stepUp sid user.username)),
      [.accepted row.user (.session sid)])
  | .readStepUp r password device lockedOut now => match p.requests r with
    | some (.stepUp sid username) => .ok
      (p.setRequest r
        (some (.verifying (openSignIn p.db username password lockedOut) device (some sid))),
        p.recognizedAccount device username now)
    | _ => .error invalidCredentials
  | .verify r code lockedOut now => p.verify crypto r code lockedOut now
  | .rehash r replacement => p.rehash r replacement
  | .login r session old device fresh now => p.login settings r session old device fresh now
  | .reauthenticate r now => p.reauthenticate settings r now
  | .authenticate sid kind touch now => do
    let (row, _) ← sessionRow settings p.db sid now kind
    let db ← Broker.authenticate settings p.db sid now kind touch
    return ({ p with db := db }, [.accepted row.user (.session sid)])
  | .logout sid => .ok ({ p with db := { p.db with sessions := p.db.sessions.erase sid } }, [])
  | .create sid name role draw now => do
    let (row, _) ← checkedActor settings p.db sid now true
    let db ← Broker.create settings p.db sid name role draw now
    return ({ p with db := db },
      [.accepted row.user (.session sid), .issued draw.user (.link draw.link.id)])
  | .change sid u action link now => do
    let (row, _) ← checkedActor settings p.db sid now true
    let db ← Broker.change settings p.db sid u action link now
    return ({ p with db := db },
      [.accepted row.user (.session sid), .changed u] ++
        if (db.accountTokens.lookup link.id).isSome then [.issued u (.link link.id)] else [])
  | .commons subject username fresh session old now => do
    let db ← commonsCallback settings p.db subject username fresh session old now
    let u := ((db.sessions.lookup session).map Session.user).getD fresh
    return ({ p with db := db }, [.issued u (.session session)])

/-- One step: a transaction that draws new values and commits. -/
def next (p : Portal) (l : Label) : Option (Portal × List Event) :=
  if l.draws.Nodup && l.draws.all fun n => !p.drawn n then
    match p.effect crypto settings l with
    | .ok (p', events) => some ({ p' with
        drawn := fun n => p.drawn n || l.draws.contains n
        factored := fun u => p.factored u || p'.db.confirmed u }, events)
    | .error _ => none
  else none

/-- The step relation, labelled with the transaction and its events. -/
def step (p : Portal) (l : Label × List Event) (p' : Portal) : Prop :=
  p.next crypto settings l.1 = some (p', l.2)

end Portal
end Broker
end OpenstackPlatform
