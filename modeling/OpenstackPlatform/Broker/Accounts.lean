import OpenstackPlatform.Broker.Database
import Mathlib.Data.List.Infix

/-!
# Enrollment, sign-in and account management

The transactions of `accounts.py`, `auth.py`, `local_auth.py` and `known_device.py`, each as one
function of the tables: `.ok` is a committed transaction with what it answers, `.error` a refused
request whose transaction was rolled back.  A flow with a slow hash in the middle is two functions
and what the request keeps between them (`Enrolling`, `Verifying`, `Verified`).

Rate limits, hashing capacity and the counters of failed sign-ins can only refuse a request that
would otherwise go on; the last are the argument `lockedOut`.
-/

namespace OpenstackPlatform
namespace Broker

open Library

/-- What credentials rest on in the standard library. -/
structure Crypto where
  /-- `totp_code` -/
  totpCode : Nat → Nat → String
  /-- `verify_password`: whether the password is right, and whether its cost must be raised. -/
  verifyPassword : String → String → Bool × Bool
  /-- `str.casefold` -/
  casefold : String → String

structure Settings where
  absoluteSeconds : Nat := 28800
  idleSeconds : Nat := 1800

/-! ## Credentials -/

/-- `[0-9]{6}` -/
def isCode (code : String) : Bool := code.length == 6 && code.toList.all Char.isDigit

/-- `verify_totp`: the last of the three counters around now that matches and is newer than the last
one used. -/
def verifyTotp (crypto : Crypto) (secret : Option Nat) (code : Option String) (now : Nat)
    (lastCounter : Int) : Option Nat :=
  match secret, code with
  | some secret, some code =>
    if isCode code then
      ((if now / 30 = 0 then [] else [now / 30 - 1]) ++ [now / 30, now / 30 + 1]).filter
        (fun counter => crypto.totpCode secret counter == code && lastCounter < counter) |>.getLast?
    else none
  | _, _ => none

/-- `local_security.username`: `[a-z][a-z0-9._-]{2,31}` -/
def isUsername (name : String) : Bool :=
  match name.toList with
  | [] => false
  | c :: cs =>
    c.isLower && 2 ≤ cs.length && cs.length ≤ 31 &&
      cs.all fun d => d.isLower || d.isDigit || d == '.' || d == '_' || d == '-'

/-- `local_security.password` -/
def isPassword (crypto : Crypto) (value name : String) : Bool :=
  12 ≤ value.length && value.utf8ByteSize ≤ 1024 &&
    !decide ((crypto.casefold name).toList <:+: (crypto.casefold value).toList)

/-- A recognized-browser cookie. -/
structure Device where
  user : UserId
  generation : Nat
  expires : Nat
  identifier : Nat
  deriving DecidableEq, Repr

/-- `known_device.LIFETIME` -/
def deviceLifetime : Nat := 90 * 86400

/-- `known_device.valid`, with the cookies that the broker's key has signed. -/
def deviceValid (signed : Device → Bool) (device : Option Device) (u : UserId) (user : User)
    (now : Nat) : Bool :=
  device.any fun d =>
    user.isLocal && signed d && d.user == u && d.generation == user.generation &&
      now < d.expires && d.expires ≤ now + deviceLifetime

/-! ## Sessions -/

/-- The idle limit of a session. -/
def idleSeconds (settings : Settings) : Role → Nat
  | .owner => settings.idleSeconds
  | .staff => min 600 settings.idleSeconds
  | .admin => min 900 settings.idleSeconds

def sessionExpired : HttpError := ⟨401, "SESSION_EXPIRED", "Sign in to continue."⟩

/-- Whether a session of one kind can do what another kind is asked for. -/
def Role.serves : Role → Option Role → Bool
  | kind, some .staff => kind != .owner
  | kind, some .admin => kind == .admin
  | _, _ => true

/-- `Auth.session_row` -/
def sessionRow (settings : Settings) (db : Database) (sid : SessionId) (now : Nat)
    (kind : Option Role) : Except HttpError (Session × User) := do
  let row ← found (db.sessions.lookup sid) sessionExpired
  let user ← found (db.users.lookup row.user) sessionExpired
  require (now < row.expires && now < row.lastUsed + idleSeconds settings row.kind &&
    user.generation == row.generation && user.role == row.kind) sessionExpired
  require (user.enabled && user.status == .active)
    ⟨403, "ACCOUNT_DISABLED", "This account is disabled."⟩
  require (row.kind != .admin ||
    (user.isLocal && (db.localAccounts.lookup row.user).any LocalAccount.totpConfirmed))
    sessionExpired
  require (row.kind.serves kind)
    ⟨403, "ACCESS_DENIED", "This session cannot access this view."⟩
  return (row, user)

/-- `Auth.authenticate` -/
def authenticate (settings : Settings) (db : Database) (sid : SessionId) (now : Nat)
    (kind : Option Role) (touch : Bool) : Except HttpError Database := do
  let _ ← sessionRow settings db sid now kind
  return if touch then
    { db with sessions := db.sessions.modify sid fun row => { row with lastUsed := now } }
  else db

/-- `Accounts.checked_actor` -/
def checkedActor (settings : Settings) (db : Database) (sid : SessionId) (now : Nat)
    (stepUp : Bool) : Except HttpError (Session × User) := do
  let (row, user) ← sessionRow settings db sid now (some .admin)
  require (!stepUp || now < row.reauthenticatedAt + 300)
    ⟨403, "STEP_UP_REQUIRED", "Re-enter your password and a fresh authentication code."⟩
  return (row, user)

/-- `Auth.mint`: a session for an account, in the place of the one that the browser had. -/
def mint (settings : Settings) (db : Database) (u : UserId) (user : User) (session : SessionId)
    (old : Option SessionId) (reauthenticated : Bool) (proofAt : Option Nat) (now : Nat) :
    Database :=
  let lifetime := if user.role = .owner then settings.absoluteSeconds
    else min 3600 settings.absoluteSeconds
  let sessions := match old with
    | some sid => db.sessions.erase sid
    | none => db.sessions
  { db with
    sessions := sessions.insert session
      { user := u, lastUsed := now, expires := now + lifetime, kind := user.role
        generation := user.generation
        reauthenticatedAt := if reauthenticated then min now (proofAt.getD now) else 0 } }

/-- `known_device.issue` -/
def issueDevice (signed : Device → Bool) (previous : Option Device) (u : UserId) (user : User)
    (fresh now : Nat) : Device where
  user := u
  generation := user.generation
  expires := now + deviceLifetime
  identifier := match previous with
    | some d => if deviceValid signed previous u user now then d.identifier else fresh
    | none => fresh

/-! ## Links -/

/-- A one-time link as it is presented. -/
structure Link where
  id : TokenId
  token : Nat
  deriving DecidableEq, Repr

/-- The operator's enrollment file. -/
structure BootstrapDocument where
  id : TokenId
  token : Nat
  created : Nat
  expires : Nat
  deriving DecidableEq, Repr

/-- `bootstrap.issue` -/
def BootstrapDocument.issue (link : Link) (now : Nat) : BootstrapDocument :=
  ⟨link.id, link.token, now, now + 86400⟩

/-- What a link stands for: its purpose, and its account unless it is a bootstrap link. -/
structure Resolved where
  purpose : Purpose
  user : Option (UserId × User)

/-- `bootstrap.read` -/
def BootstrapDocument.accepts (document : BootstrapDocument) (link : Link) (now validAfter : Nat) :
    Bool :=
  document.id == link.id && validAfter < document.created && document.created ≤ now &&
    now < document.expires && document.expires ≤ document.created + 86400 &&
    document.token == link.token

/-- `Accounts.resolve_token`; `none` is a `ValueError`. -/
def resolveToken (db : Database) (file : Option BootstrapDocument) (link : Link) (now : Nat) :
    Option Resolved :=
  if db.usedTokens.contains link.id then none
  else match db.accountTokens.lookup link.id with
    | some row => (db.users.lookup row.user).bind fun user =>
      if 5 ≤ row.failures || row.expires ≤ now || row.generation != user.generation ||
          row.token != link.token || !user.isLocal then none
      else some ⟨row.purpose, some (row.user, user)⟩
    | none => file.bind fun document =>
      if document.accepts link now db.validAfter then some ⟨.bootstrap, none⟩ else none

/-- `Accounts.link` -/
def addLink (db : Database) (u : UserId) (purpose : Purpose) (link : Link) (now : Nat) : Database :=
  match db.users.lookup u with
  | some user =>
    { db with
      accountTokens := db.accountTokens.insert link.id
        { token := link.token, user := u, generation := user.generation, purpose := purpose
          expires := now + 72 * 3600 } }
  | none => db

/-! ## Enrollment -/

/-- The fields of an enrollment request. -/
structure EnrollBody where
  link : Link
  username : String
  password : String
  totpEnabled : Bool
  totp : Option String

/-- What `enroll` keeps between its two transactions. -/
structure Enrolling where
  link : Link
  binder : Nat
  name : String
  role : Role
  purpose : Purpose
  prior : Option LocalAccount
  resetCounter : Option Nat
  selected : Bool

def tokenInvalid : HttpError :=
  ⟨403, "TOKEN_INVALID", "The link or enrollment fields are invalid."⟩

/-- Whether a password reset must prove the factor that the account has. -/
def provesFactor (purpose : Purpose) (prior : Option LocalAccount) : Bool :=
  purpose == .passwordReset && prior.any LocalAccount.totpConfirmed

/-- `enroll`, first transaction.  A wrong code counts against the link and ends the request. -/
def openEnrollment (crypto : Crypto) (db : Database) (file : Option BootstrapDocument)
    (body : EnrollBody) (binder now : Nat) : Except HttpError (Database × Option Enrolling) := do
  let resolved ← found (resolveToken db file body.link now) tokenInvalid
  let name := match resolved.user with
    | some (_, user) => user.username
    | none => body.username
  require (resolved.user.isSome || isUsername body.username) tokenInvalid
  let role := match resolved.user with
    | some (_, user) => user.role
    | none => .admin
  let prior := resolved.user.bind fun (u, _) => db.localAccounts.lookup u
  require (resolved.purpose == .totpReset || isPassword crypto body.password name) tokenInvalid
  let enrolling := fun counter : Option Nat =>
    Enrolling.mk body.link binder name role resolved.purpose prior counter body.totpEnabled
  if provesFactor resolved.purpose prior then
    match verifyTotp crypto (prior.bind LocalAccount.totpSecret) body.totp now
        ((prior.map LocalAccount.lastCounter).getD (-1)) with
    | none => return ({ db with
        accountTokens := db.accountTokens.modify body.link.id fun row =>
          { row with failures := min (row.failures + 1) 5 } }, none)
    | some counter => return (match resolved.user with
      | some (u, _) => { db with
          localAccounts := db.localAccounts.modify u fun account =>
            { account with lastCounter := counter } }
      | none => db, some (enrolling (some counter)))
  else return (db, some (enrolling none))

/-- Whether an enrollment sets up a second factor. -/
def Enrolling.enrollFactor (e : Enrolling) : Bool :=
  match e.purpose with
  | .bootstrap | .totpReset => true
  | .invite => e.role == .admin || e.selected
  | .passwordReset => (e.role == .admin || e.selected) && !e.prior.any LocalAccount.totpConfirmed

/-- The values that the second transaction of `enroll` draws or computes. -/
structure EnrollDraw where
  user : UserId
  subject : Nat
  handle : Handle
  secret : Nat
  passwordHash : String

/-- The account that an enrollment is for; a bootstrap link makes a new one. -/
def enrollUser (db : Database) (e : Enrolling) (resolved : Resolved) (draw : EnrollDraw) :
    Except HttpError (Database × UserId × User) :=
  match resolved.user with
  | some (u, user) => .ok (db, u, user)
  | none => do
    let user : User :=
      { isLocal := true, subject := draw.subject, username := e.name, role := .admin
        status := .pending }
    require (db.admits draw.user user)
      ⟨409, "ACCOUNT_UNAVAILABLE", "Choose another local username."⟩
    return ({ db with
      users := db.users.insert draw.user user
      localAccounts := db.localAccounts.insert draw.user {} }, draw.user, user)

/-- The row that an enrollment leaves. -/
def Enrolling.row (e : Enrolling) (u : UserId) (user : User) (draw : EnrollDraw) (now : Nat) :
    Enrollment where
  user := u
  generation := user.generation
  binder := e.binder
  purpose := e.purpose
  secret := if e.enrollFactor then some draw.secret else none
  passwordHash := if e.purpose = .totpReset then none else some draw.passwordHash
  expires := now + 600

/-- `enroll`, second transaction. -/
def commitEnrollment (db : Database) (file : Option BootstrapDocument) (e : Enrolling)
    (draw : EnrollDraw) (now : Nat) : Except HttpError Database := do
  let resolved ← found (resolveToken db file e.link now) tokenInvalid
  let (db, u, user) ← enrollUser db e resolved draw
  let latest := db.localAccounts.lookup u
  require (!provesFactor e.purpose e.prior ||
    (latest.bind LocalAccount.totpSecret == e.prior.bind LocalAccount.totpSecret &&
      latest.map LocalAccount.lastCounter == e.resetCounter.map Int.ofNat))
    ⟨403, "TOKEN_INVALID", "This enrollment is unavailable."⟩
  return { db with
    usedTokens := e.link.id :: db.usedTokens
    accountTokens := db.accountTokens.erase e.link.id
    enrollments := (db.enrollments.deleteWhere fun _ row => row.expires ≤ now).insert draw.handle
      (e.row u user draw now) }

/-! ## Completion -/

/-- What a completed request answers. -/
inductive Finished where
  | wrongCode
  | signIn
  | session

/-- The outcome of the code of a completion: a wrong one, or the counter it used, if any. -/
inductive CodeCheck where
  | wrong
  | right (counter : Option Nat)

/-- The code of a completion against the new factor, or else against the one the account has. -/
def checkCode (crypto : Crypto) (row : Enrollment) (factor : Option LocalAccount)
    (totp : Option String) (now : Nat) : CodeCheck :=
  match row.secret with
  | some secret => match verifyTotp crypto (some secret) totp now (-1) with
    | some counter => .right (some counter)
    | none => .wrong
  | none =>
    if totp.any (· ≠ "") then
      match factor.bind fun account => if account.totpConfirmed then
          verifyTotp crypto account.totpSecret totp now account.lastCounter else none with
      | some counter => .right (some counter)
      | none => .wrong
    else .right none

/-- The local account after a completion. -/
def LocalAccount.complete (account : LocalAccount) (row : Enrollment) (counter : Option Nat) :
    LocalAccount where
  passwordHash := row.passwordHash.or account.passwordHash
  totpSecret := row.secret.or account.totpSecret
  totpConfirmed := row.secret.isSome || account.totpConfirmed
  lastCounter := (counter.map Int.ofNat).getD account.lastCounter

/-- `finish` -/
def finish (crypto : Crypto) (settings : Settings) (db : Database) (handle : Handle)
    (binder : Nat) (totp : Option String) (session : SessionId) (old : Option SessionId)
    (now : Nat) : Except HttpError (Database × Finished) := do
  let row ← found (db.enrollments.lookup handle)
    ⟨403, "TOKEN_INVALID", "This enrollment is unavailable or expired."⟩
  require (now < row.expires && row.failures < 5 && row.binder == binder)
    ⟨403, "TOKEN_INVALID", "This enrollment is unavailable or expired."⟩
  let user ← db.target row.user
  require (user.generation == row.generation)
    ⟨403, "TOKEN_INVALID", "This enrollment is unavailable."⟩
  match checkCode crypto row (db.localAccounts.lookup row.user) totp now with
  | .wrong => return ({ db with
      enrollments := db.enrollments.modify handle fun row =>
        { row with failures := row.failures + 1 } }, .wrongCode)
  | .right counter =>
    require (user.role != .admin || row.purpose == .passwordReset || counter.isSome)
      ⟨401, "INVALID_CREDENTIALS", "Admin accounts require authentication-code enrollment."⟩
    let db := { db with
      localAccounts := db.localAccounts.modify row.user fun account => account.complete row counter
      users := db.users.modify row.user fun user => { user with status := .active } }
    let db := db.securityChange row.user
    let latest ← db.target row.user
    if row.purpose = .totpReset || !latest.enabled then return (db, .signIn)
    else return (mint settings db row.user latest session old
      (latest.role == .admin && counter.isSome) (if counter.isSome then some now else none) now,
      .session)

/-! ## Account management -/

/-- The identifiers that a new account or link draws. -/
structure LinkDraw where
  user : UserId
  subject : Nat
  link : Link

/-- `Accounts.create` -/
def create (settings : Settings) (db : Database) (sid : SessionId) (name : String) (role : Role)
    (draw : LinkDraw) (now : Nat) : Except HttpError Database := do
  let _ ← checkedActor settings db sid now true
  require (isUsername name) ⟨400, "INVALID_FIELD", "Invalid local account name."⟩
  let user : User :=
    { isLocal := true, subject := draw.subject, username := name, role := role, status := .pending }
  require (db.admits draw.user user)
    ⟨409, "ACCOUNT_UNAVAILABLE", "This local username is unavailable."⟩
  return addLink { db with
    users := db.users.insert draw.user user
    localAccounts := db.localAccounts.insert draw.user {} } draw.user .invite draw.link now

/-- The actions of `Accounts.change`, with their values. -/
inductive Action where
  | role (role : Role)
  | enabled (value : Bool)
  | revokeSessions
  | passwordReset
  | totpReset
  | invite
  deriving DecidableEq, Repr

/-- The purpose of the link that an action always issues. -/
def Action.purpose : Action → Option Purpose
  | .passwordReset => some .passwordReset
  | .totpReset => some .totpReset
  | .invite => some .invite
  | _ => none

/-- The account row after an action, before the security change. -/
def Action.applyUser : Action → User → User
  | .role r, user => { user with role := r }
  | .enabled value, user => { user with enabled := value }
  | .passwordReset, user | .totpReset, user => { user with status := .pending }
  | _, user => user

/-- The local account after an action. -/
def Action.applyAccount : Action → LocalAccount → LocalAccount
  | .passwordReset, account => { account with passwordHash := none }
  | .totpReset, account =>
    { account with totpSecret := none, totpConfirmed := false, lastCounter := -1 }
  | _, account => account

/-- Whether an account must enroll before it can be active again. -/
def needsEnrollment (user : User) (factor : Option LocalAccount) : Bool :=
  user.role == .admin && !factor.any LocalAccount.totpConfirmed

/-- The purpose of the link that a change issues, if it issues one. -/
def changePurpose (action : Action) (user : User) (factor : Option LocalAccount) : Option Purpose :=
  action.purpose.or
    (if needsEnrollment user factor then
      some (if factor.any fun account => account.passwordHash.isNone then .invite else .totpReset)
    else none)

/-- What a change writes first: the action, and the security change that every action is. -/
def Database.apply (db : Database) (u : UserId) (action : Action) : Database :=
  let db := { db with users := db.users.modify u action.applyUser }.securityChange u
  { db with localAccounts := db.localAccounts.modify u action.applyAccount }

/-- An account that must enroll waits for it. -/
def Database.suspend (db : Database) (u : UserId) (waits : Bool) : Database :=
  if waits then
    { db with users := db.users.modify u fun user => { user with status := .pending } }
  else db

/-- The link that a change issues, if it issues one. -/
def Database.offer (db : Database) (u : UserId) (purpose : Option Purpose) (link : Link)
    (now : Nat) : Database :=
  match purpose with
  | some purpose => addLink db u purpose link now
  | none => db

/-- `Accounts.change` -/
def change (settings : Settings) (db : Database) (sid : SessionId) (u : UserId) (action : Action)
    (link : Link) (now : Nat) : Except HttpError Database := do
  let _ ← checkedActor settings db sid now true
  let user ← db.target u
  require (action != .role .admin || user.isLocal)
    ⟨400, "INVALID_ROLE", "Only a local account can be an admin."⟩
  require (action.purpose.isNone || user.isLocal)
    ⟨400, "INVALID_FIELD", "Commons credentials are managed outside the portal."⟩
  require (action != .invite || user.status == .pending)
    ⟨400, "INVALID_FIELD", "Only a pending account can be invited."⟩
  let changed := db.apply u action
  let latest ← changed.target u
  let factor := changed.localAccounts.lookup u
  return (changed.suspend u (needsEnrollment latest factor)).offer u
    (changePurpose action latest factor) link now

/-! ## Sign-in -/

/-- What `local_auth.authenticate` keeps while it hashes the password. -/
structure Verifying where
  username : String
  password : String
  user : Option (UserId × User × LocalAccount)
  denied : Bool

/-- A verified sign-in, before its session. -/
structure Verified where
  user : UserId
  username : String
  subject : Nat
  generation : Nat
  password : String
  encoded : String
  upgrade : Bool

/-- `blocked` -/
def blocked (user : Option (UserId × User × LocalAccount)) (lockedOut : Bool) : Bool :=
  match user with
  | none => true
  | some (_, user, account) =>
    !user.enabled || user.status != .active || account.passwordHash.isNone || lockedOut

/-- `authenticate`: what is read before the password is hashed. -/
def openSignIn (db : Database) (username password : String) (lockedOut : Bool) : Verifying :=
  ⟨username, password, db.account username, blocked (db.account username) lockedOut⟩

def invalidCredentials : HttpError :=
  ⟨401, "INVALID_CREDENTIALS", "Username, password or authentication code is incorrect."⟩

/-- `authenticate`: the transaction after the hash. -/
def verifySignIn (crypto : Crypto) (db : Database) (v : Verifying) (code : Option String)
    (lockedOut : Bool) (now : Nat) : Except HttpError (Database × Verified) := do
  let (_, user, stored) ← found v.user invalidCredentials
  let encoded ← found stored.passwordHash invalidCredentials
  let (u, latest, account) ← found (db.account v.username) invalidCredentials
  require (!v.denied && latest.generation == user.generation &&
    account.passwordHash == some encoded &&
    !blocked (db.account v.username) lockedOut) invalidCredentials
  let (valid, upgrade) := crypto.verifyPassword v.password encoded
  require valid invalidCredentials
  let verified := Verified.mk u v.username latest.subject latest.generation v.password encoded upgrade
  if account.totpConfirmed && account.totpSecret.isSome then
    let counter ← found (verifyTotp crypto account.totpSecret code now account.lastCounter)
      invalidCredentials
    return ({ db with
      localAccounts := db.localAccounts.modify u fun account =>
        { account with lastCounter := counter } }, verified)
  else do
    require (latest.role != .admin) invalidCredentials
    return (db, verified)

/-- `authenticate`: the transaction that raises the cost of the stored hash. -/
def rehash (db : Database) (v : Verified) (replacement : String) : Except HttpError Database := do
  let (_, user, account) ← found (db.account v.username) invalidCredentials
  require (user.generation == v.generation && account.passwordHash == some v.encoded &&
    user.enabled && user.status == .active) invalidCredentials
  return { db with
    localAccounts := db.localAccounts.modify v.user fun account =>
      { account with passwordHash := some replacement } }

/-- `Auth.login`: the transaction that makes the session. -/
def login (settings : Settings) (db : Database) (v : Verified) (session : SessionId)
    (old : Option SessionId) (now : Nat) : Except HttpError (Database × UserId × User) := do
  let (u, user) ← found
    (db.users.find? fun _ user => user.isLocal && user.subject == v.subject) invalidCredentials
  require (user.enabled && user.status == .active)
    ⟨403, "ACCOUNT_DISABLED", "Your portal account is disabled. Contact course staff."⟩
  require (user.generation == v.generation) invalidCredentials
  return (mint settings db u user session old (user.role == .admin) none now, u, user)

/-- `Accounts.reauthenticate`: the transaction after the password was verified. -/
def reauthenticate (settings : Settings) (db : Database) (v : Verified) (sid : SessionId)
    (now : Nat) : Except HttpError Database := do
  let (_, user) ← sessionRow settings db sid now (some .admin)
  require (user.generation == v.generation) sessionExpired
  return { db with
    sessions := db.sessions.modify sid fun row => { row with reauthenticatedAt := now } }

/-- `Auth.commons_callback`: the transaction for a redeemed profile. -/
def commonsCallback (settings : Settings) (db : Database) (subject : Nat) (username : String)
    (fresh : UserId) (session : SessionId) (old : Option SessionId) (now : Nat) :
    Except HttpError Database := do
  let existing := db.users.find? fun _ user => !user.isLocal && user.subject == subject
  require (existing.all fun e => e.2.enabled && e.2.status == .active)
    ⟨303, "ACCOUNT_DISABLED", "/sign-in?error=ACCOUNT_DISABLED"⟩
  require (existing.isSome || (db.users.lookup fresh).isNone)
    ⟨303, "SIGN_IN_EXPIRED", "/sign-in?error=SIGN_IN_EXPIRED"⟩
  let (u, user) := match existing with
    | some (u, user) => (u, { user with username := username })
    | none => (fresh, { isLocal := false, subject := subject, username := username })
  return mint settings { db with users := db.users.insert u user } u user session old false none now

end Broker
end OpenstackPlatform
