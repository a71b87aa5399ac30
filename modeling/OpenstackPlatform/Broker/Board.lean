import OpenstackPlatform.Broker.Accounts
import Mathlib.Data.Option.Basic

/-!
# The broker's application tables

Applications with their owners and members, saved configurations, and the journal of intents: every
change that the portal asks of the controller is an intent, recorded in the transaction that admits
it.  The transactions here are shared by the journal, by the team of an application and by the
admission of bindings.
-/

namespace OpenstackPlatform
namespace Broker

open Library

abbrev AppId := Nat
abbrev IntentId := Nat
abbrev ResourceId := Nat

/-- `apps.lifecycle` -/
inductive Lifecycle where
  | creating
  | ready
  | rejected
  | deleted
  deriving DecidableEq, Repr

/-- Lifecycles that an application does not leave. -/
def Lifecycle.terminal : Lifecycle → Bool
  | rejected | deleted => true
  | _ => false

/-- A row of `apps`. -/
structure App where
  owner : UserId
  lifecycle : Lifecycle
  revision : Nat := 0
  deriving DecidableEq, Repr

/-- `intents.kind` -/
inductive IntentKind where
  | createApp
  | adoptApp
  | saveConfiguration
  | deploy
  | appEnable
  | appDisable
  | appRestart
  | appDelete
  | envSet
  | envDelete
  | storageCreate
  | storageVerify
  | storageRotate
  | storageDelete
  | storageLimits
  | builderSize
  | defaultBuilderSize
  deriving DecidableEq, Repr

/-- `kind IN ('env_set','env_delete')` -/
def IntentKind.environment : IntentKind → Bool
  | envSet | envDelete => true
  | _ => false

/-- `intents.state` -/
inductive IntentState where
  | prepared
  | unknown
  | accepted
  | blocked
  | succeeded
  | failed
  deriving DecidableEq, Repr

/-- `state IN ('succeeded','failed')` -/
def IntentState.settled : IntentState → Bool
  | succeeded | failed => true
  | _ => false

/-- A row of `intents`.  `names` and `resource` are what its body and its path name; `portalAdmin` is
`_portalAdmin` of its body. -/
structure Intent where
  user : UserId
  app : Option AppId
  kind : IntentKind
  controllerKey : Nat
  portalAdmin : Bool := false
  names : List String := []
  resource : Option ResourceId := none
  state : IntentState := .prepared
  operationId : Option Nat := none
  lease : Nat := 0
  deriving DecidableEq, Repr

/-- A storage binding of a configuration, with the names it binds outputs to. -/
structure Binding where
  resource : ResourceId
  outputs : List (String × String)
  deriving DecidableEq, Repr

/-- A saved configuration, as far as the broker reads it. -/
structure Configuration where
  storageBindings : List Binding
  deriving DecidableEq, Repr

/-- The tables. -/
structure Board where
  apps : Table AppId App := ∅
  members : Table (AppId × UserId) Unit := ∅
  configurations : Table (AppId × Nat) Configuration := ∅
  intents : Table IntentId Intent := ∅

namespace Board

/-- `Broker.record`, the insertion: a new intent is prepared. -/
def record (b : Board) (i : IntentId) (intent : Intent) : Option Board :=
  if (b.intents.lookup i).isNone then
    some { b with
      intents := b.intents.insert i
        { intent with state := .prepared, operationId := none, lease := 0 } }
  else none

/-- An update of an intent's state. -/
def setState (b : Board) (i : IntentId) (state : IntentState) : Board :=
  { b with intents := b.intents.modify i fun row => { row with state := state } }

/-- An update of an application's lifecycle. -/
def setLifecycle (b : Board) (app : AppId) (lifecycle : Lifecycle) : Board :=
  { b with apps := b.apps.modify app fun row => { row with lifecycle := lifecycle } }

/-- What `retire_app` settles. -/
def retires (app : AppId) (row : Intent) : Bool :=
  row.app == some app && row.kind != .appDelete &&
    (row.state == .prepared || row.state == .unknown || row.state == .blocked)

/-- `Journal.retire_app` -/
def retireApp (b : Board) (app : AppId) : Board :=
  { apps := b.apps.modify app fun row => { row with lifecycle := .deleted, revision := 0 }
    members := b.members.deleteWhere fun key _ => key.1 = app
    configurations := b.configurations.deleteWhere fun key _ => key.1 = app
    intents := b.intents.mapRows fun row =>
      if retires app row then { row with state := .failed, lease := 0 } else row }

/-- `check_app_not_deleted` -/
def checkAppNotDeleted (b : Board) (app : AppId) : Except HttpError App := do
  let row ← found (b.apps.lookup app) ⟨404, "NOT_FOUND", "Application not found."⟩
  require (row.lifecycle != .deleted)
    ⟨410, "APPLICATION_DELETED", "This application was deleted by an administrator."⟩
  return row

/-- The saved configuration of an application. -/
def saved (b : Board) (app : AppId) : Option Configuration :=
  (b.apps.lookup app).bind fun row => b.configurations.lookup (app, row.revision)

end Board

end Broker
end OpenstackPlatform
