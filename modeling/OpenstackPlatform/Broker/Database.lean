import OpenstackPlatform.Library.Checks
import OpenstackPlatform.Library.Table

/-!
# The broker's accounts tables

The rows of the management broker's database that sign-in, enrollment and account management read
and write, and the checks that several of them share.  A value drawn at random (an identifier, a
one-time token, a session, a TOTP secret) is a natural number; what the database keeps of a token or
a session is its SHA-256, which stands here for the value itself.

`securityChange` is the one write that ends everything issued for an account before it: the
account's generation advances, and its sessions, links and enrollments are deleted.
-/

namespace OpenstackPlatform
namespace Broker

open Library

/-- An answer that refuses a request. -/
structure HttpError where
  status : Nat
  code : String
  summary : String
  deriving DecidableEq, Repr

/-- Refuse a request unless a condition holds. -/
def require (condition : Bool) (error : HttpError) : Except HttpError Unit :=
  if condition then .ok () else .error error

@[simp] theorem require_eq_ok {c : Bool} {e : HttpError} {u : Unit} :
    require c e = .ok u ↔ c = true := by
  cases c <;> simp [require]

@[simp] theorem bind_eq_ok {α β : Type} {x : Except HttpError α} {f : α → Except HttpError β}
    {b : β} : (x >>= f) = .ok b ↔ ∃ a, x = .ok a ∧ f a = .ok b :=
  Library.Checks.bind_ok_iff

/-- A row that must be there. -/
def found {α : Type} (row : Option α) (error : HttpError) : Except HttpError α :=
  match row with
  | some a => .ok a
  | none => .error error

@[simp] theorem found_eq_ok {α : Type} {row : Option α} {e : HttpError} {a : α} :
    found row e = .ok a ↔ row = some a := by
  cases row <;> simp [found]

abbrev UserId := Nat
abbrev SessionId := Nat
abbrev TokenId := Nat
abbrev Handle := Nat

inductive Role where
  | owner
  | staff
  | admin
  deriving DecidableEq, Repr

inductive Status where
  | active
  | pending
  deriving DecidableEq, Repr

/-- What a link or an enrollment is for. -/
inductive Purpose where
  | bootstrap
  | invite
  | passwordReset
  | totpReset
  deriving DecidableEq, Repr

/-- A row of `users`; `isLocal` is `issuer='local'`. -/
structure User where
  isLocal : Bool
  subject : Nat
  username : String
  role : Role := .owner
  enabled : Bool := true
  status : Status := .active
  generation : Nat := 1
  deriving DecidableEq, Repr

/-- A row of `local_accounts`, without the counters of failed codes, which only refuse. -/
structure LocalAccount where
  passwordHash : Option String := none
  totpSecret : Option Nat := none
  totpConfirmed : Bool := false
  lastCounter : Int := -1
  deriving DecidableEq, Repr

/-- A row of `sessions`. -/
structure Session where
  user : UserId
  lastUsed : Nat
  expires : Nat
  kind : Role
  generation : Nat
  reauthenticatedAt : Nat := 0
  deriving DecidableEq, Repr

/-- A row of `account_tokens`, a setup link. -/
structure AccountToken where
  token : Nat
  user : UserId
  generation : Nat
  purpose : Purpose
  expires : Nat
  failures : Nat := 0
  deriving DecidableEq, Repr

/-- A row of `enrollments`. -/
structure Enrollment where
  user : UserId
  generation : Nat
  binder : Nat
  purpose : Purpose
  secret : Option Nat
  passwordHash : Option String
  expires : Nat
  failures : Nat := 0
  deriving DecidableEq, Repr

/-- The tables. -/
structure Database where
  users : Table UserId User := ∅
  localAccounts : Table UserId LocalAccount := ∅
  sessions : Table SessionId Session := ∅
  accountTokens : Table TokenId AccountToken := ∅
  usedTokens : List TokenId := []
  enrollments : Table Handle Enrollment := ∅
  /-- `token_policy.valid_after` -/
  validAfter : Nat := 0

namespace Database

/-- `Accounts.target` -/
def target (db : Database) (u : UserId) : Except HttpError User :=
  found (db.users.lookup u) ⟨404, "NOT_FOUND", "Account not found."⟩

/-- `security_change` -/
def securityChange (db : Database) (u : UserId) : Database :=
  { db with
    users := db.users.modify u fun user => { user with generation := user.generation + 1 }
    sessions := db.sessions.deleteWhere fun _ row => row.user = u
    accountTokens := db.accountTokens.deleteWhere fun _ row => row.user = u
    enrollments := db.enrollments.deleteWhere fun _ row => row.user = u }

/-- What the unique constraints of `users` allow to insert: a new identifier, and for a local account
a new name and subject. -/
def admits (db : Database) (u : UserId) (user : User) : Bool :=
  (db.users.lookup u).isNone && (db.users.find? fun _ other =>
    other.isLocal && user.isLocal &&
      (other.username == user.username || other.subject == user.subject)).isNone

/-- Whether an account has a confirmed second factor. -/
def confirmed (db : Database) (u : UserId) : Bool :=
  (db.localAccounts.lookup u).any LocalAccount.totpConfirmed

/-- The local account of a name; local names are unique. -/
def account (db : Database) (username : String) : Option (UserId × User × LocalAccount) :=
  (db.users.find? fun _ user => user.isLocal && user.username == username).bind fun (u, user) =>
    (db.localAccounts.lookup u).map fun account => (u, user, account)

end Database

end Broker
end OpenstackPlatform
