import OpenstackPlatform.Broker.Board
import OpenstackPlatform.Library.Run

/-!
# The journal's dispatch

`Journal.dispatch` reads an intent and takes a lease on it in one transaction, asks the controller,
and writes what it answered in another, by the intent's identifier.  What it keeps in between is a
flight, and any other step can happen meanwhile: the steps of `Journal.step` interleave freely, and a
flight that never ends is a process that stopped.

`Board.Absorbs` says that what is settled stays so.  Every transaction absorbs except the final write
of a flight, which does when the intent it writes, and the application it may write, are still open
(`Board.openFor`).
-/

namespace OpenstackPlatform
namespace Broker

open Library

/-! ## The controller's answers -/

/-- `status` of an operation. -/
inductive OperationStatus where
  | running
  | succeeded
  | failed
  | recoveryRequired
  deriving DecidableEq, Repr

/-- `scope` of an operation. -/
inductive OperationScope where
  | infrastructure
  | app (id : Option AppId)
  deriving DecidableEq, Repr

/-- What the broker reads of an answer of the controller. -/
structure Reply where
  status : Nat
  applicationId : Option AppId := none
  operationId : Option Nat := none
  operationStatus : Option OperationStatus := none
  scope : Option OperationScope := none
  /-- `cleanupState` is `confirmed` or `not_required` -/
  cleanupSettled : Bool := false
  errorCode : Option String := none
  deriving DecidableEq, Repr

/-- Rejections that leave an operation to recover. -/
def recoverableCodes : List String :=
  ["RECOVERY_REQUIRED", "UNFINISHED_OPERATION", "OPERATION_CONFLICT"]

/-- Statuses with which the controller rejects a request. -/
def rejections : List Nat := [400, 404, 409, 413, 415, 422]

namespace Intent

/-- The scope that an operation of an intent must have. -/
def expectedScope (intent : Intent) : OperationScope :=
  if intent.kind = .defaultBuilderSize then .infrastructure else .app intent.app

/-- Whether a dispatch polls an operation; otherwise it delivers the request. -/
def polled (intent : Intent) : Option Nat :=
  if intent.state = .accepted then intent.operationId else none

/-- The state after a poll; evidence that is not the operation's leaves it accepted. -/
def afterPoll (intent : Intent) (operation : Nat) (reply : Reply) : IntentState :=
  if reply.status = 200 ∧ reply.operationId = some operation ∧
      reply.scope = some intent.expectedScope then
    match reply.operationStatus with
    | none | some .running => .accepted
    | some .recoveryRequired => .blocked
    | some .succeeded => if reply.cleanupSettled then .succeeded else .blocked
    | some .failed => if reply.cleanupSettled then .failed else .blocked
  else .accepted

/-- The state and the operation after a delivery. -/
def afterDelivery (intent : Intent) (reply : Reply) : IntentState × Option Nat :=
  if reply.status = 201 ∧ intent.kind = .createApp then
    (if reply.applicationId = intent.app then .succeeded else .unknown, intent.operationId)
  else if reply.status = 202 then
    if reply.operationId = some intent.controllerKey then (.accepted, reply.operationId)
    else (.unknown, intent.operationId)
  else if reply.status = 503 ∧ intent.kind = .storageLimits ∧
      reply.errorCode = some "INSTANCE_MANAGER_UNAVAILABLE" then (.unknown, intent.operationId)
  else if reply.status ∈ rejections then
    (if reply.errorCode.any (recoverableCodes.contains ·) then .blocked else .failed,
      intent.operationId)
  else (.unknown, intent.operationId)

/-- What a dispatch writes; no answer is `ControllerUnavailable`. -/
def answered (intent : Intent) (reply : Option Reply) : IntentState × Option Nat :=
  match intent.polled, reply with
  | some operation, some reply => (intent.afterPoll operation reply, some operation)
  | some operation, none => (.accepted, some operation)
  | none, some reply => intent.afterDelivery reply
  | none, none => (.unknown, intent.operationId)

/-- Whether a dispatch may take an intent up. -/
def dispatchable (intent : Intent) (secret : Bool) (now : Nat) : Bool :=
  (intent.state == .prepared || intent.state == .unknown || intent.state == .accepted ||
    (intent.kind.environment && intent.state == .blocked && secret)) &&
  intent.lease ≤ now &&
  (!intent.kind.environment || intent.state == .accepted || secret)

/-- Whether a dispatch needs an administrator's authority. -/
def needsReview (intent : Intent) : Bool :=
  (intent.portalAdmin || intent.kind == .defaultBuilderSize || intent.kind == .storageLimits ||
    intent.kind == .appDelete) && intent.state != .accepted

end Intent

/-! ## The steps -/

/-- A dispatch that has asked the controller, with the row it read. -/
structure Flight where
  intent : IntentId
  row : Intent
  deriving DecidableEq, Repr

/-- The journal: the tables and the dispatches under way. -/
structure Journal where
  board : Board := {}
  flights : Table Nat Flight := ∅

/-- One transaction. -/
inductive JournalLabel where
  | record (i : IntentId) (intent : Intent)
  | create (i : IntentId) (app : AppId) (owner user : UserId) (admin : Bool)
  | adopt (i : IntentId) (app : AppId) (owner user : UserId) (revision : Nat)
      (configuration : Configuration)
  | save (i : IntentId) (app : AppId) (user : UserId) (admin : Bool) (revision : Nat)
      (configuration : Configuration)
  | take (flight : Nat) (i : IntentId) (secret authorized : Bool) (now timeout : Nat)
  | answer (flight : Nat) (reply : Option Reply)
  | observeDeleted (app : AppId)
  | resume (i : IntentId)

namespace Board

/-- `Broker.create`, the admission of a new application. -/
def create (b : Board) (i : IntentId) (app : AppId) (owner user : UserId) (admin : Bool) :
    Option Board := do
  guard (b.apps.lookup app).isNone
  let b ← b.record i
    { user := user, app := some app, kind := .createApp, controllerKey := app, portalAdmin := admin }
  return { b with apps := b.apps.insert app { owner := owner, lifecycle := .creating } }

/-- `AppManagement.adopt`: an application that the controller already has. -/
def adopt (b : Board) (i : IntentId) (app : AppId) (owner user : UserId) (revision : Nat)
    (configuration : Configuration) : Option Board := do
  guard (b.apps.lookup app).isNone
  let b ← b.record i
    { user := user, app := some app, kind := .adoptApp, controllerKey := i, portalAdmin := true }
  let b := { b with
    apps := b.apps.insert app { owner := owner, lifecycle := .ready, revision := revision }
    configurations := b.configurations.insert (app, revision) configuration }
  return b.setState i .succeeded

/-- `Broker.save`: a new revision of a configuration. -/
def save (b : Board) (i : IntentId) (app : AppId) (user : UserId) (admin : Bool) (revision : Nat)
    (configuration : Configuration) : Option Board := do
  let row ← (b.checkAppNotDeleted app).toOption
  guard (row.revision = revision)
  let b := { b with
    configurations := b.configurations.insert (app, revision + 1) configuration
    apps := b.apps.modify app fun row => { row with revision := revision + 1 } }
  let b ← b.record i
    { user := user, app := some app, kind := .saveConfiguration, controllerKey := i
      portalAdmin := admin }
  return b.setState i .succeeded

/-- `Journal.dispatch`, first transaction, of a row that may be taken up: it is blocked for review, or
a lease is taken. -/
def take (b : Board) (i : IntentId) (row : Intent) (authorized : Bool) (now timeout : Nat) :
    Board × Option Flight :=
  if row.needsReview && !authorized then (b.setState i .blocked, none)
  else ({ b with intents := b.intents.modify i fun row =>
    { row with lease := now + timeout + 5 } }, some ⟨i, row⟩)

/-- `Journal.dispatch`, the write of its last transaction: by the intent's identifier. -/
def writeAnswer (b : Board) (flight : Flight) (reply : Option Reply) : Board :=
  { b with intents := b.intents.modify flight.intent fun row =>
    { row with
      state := (flight.row.answered reply).1, operationId := (flight.row.answered reply).2
      lease := 0 } }

/-- `Journal.dispatch`, last transaction. -/
def answer (b : Board) (flight : Flight) (reply : Option Reply) : Board :=
  match flight.row.kind, flight.row.app, (flight.row.answered reply).1 with
  | .appDelete, some app, .succeeded => (b.writeAnswer flight reply).retireApp app
  | .createApp, some app, .succeeded => (b.writeAnswer flight reply).setLifecycle app .ready
  | .createApp, some app, .failed => (b.writeAnswer flight reply).setLifecycle app .rejected
  | _, _, _ => b.writeAnswer flight reply

/-- `Journal.observe_deleted`, its transaction: evidence that a ready application is gone. -/
def observeDeleted (b : Board) (app : AppId) : Board :=
  if (b.apps.lookup app).any fun row => row.lifecycle = .ready then b.retireApp app else b

/-- `Broker.resume`: an intent that waits for it is prepared again. -/
def resume (b : Board) (i : IntentId) : Option Board :=
  match b.intents.lookup i with
  | some row =>
    if (row.app.bind fun app => b.apps.lookup app).any fun app => app.lifecycle = .deleted then none
    else if row.kind.environment then none
    else if row.state = .blocked ∨ row.state = .unknown then some (b.setState i .prepared)
    else some b
  | none => none

end Board

namespace Journal

/-- Start a flight, if the transaction left one. -/
def depart (flights : Table Nat Flight) (f : Nat) : Option Flight → Table Nat Flight
  | some flight => flights.insert f flight
  | none => flights

/-- What the transaction of a label commits. -/
def next (j : Journal) : JournalLabel → Option Journal
  | .record i intent => (j.board.record i intent).map fun b => { j with board := b }
  | .create i app owner user admin =>
    (j.board.create i app owner user admin).map fun b => { j with board := b }
  | .adopt i app owner user revision configuration =>
    (j.board.adopt i app owner user revision configuration).map fun b => { j with board := b }
  | .save i app user admin revision configuration =>
    (j.board.save i app user admin revision configuration).map fun b => { j with board := b }
  | .take f i secret authorized now timeout => match j.board.intents.lookup i with
    | some row =>
      if row.dispatchable secret now && (j.flights.lookup f).isNone then
        let (b, flight) := j.board.take i row authorized now timeout
        some { board := b, flights := depart j.flights f flight }
      else none
    | none => none
  | .answer f reply => (j.flights.lookup f).map fun flight =>
    { board := j.board.answer flight reply, flights := j.flights.erase f }
  | .observeDeleted app => some { j with board := j.board.observeDeleted app }
  | .resume i => (j.board.resume i).map fun b => { j with board := b }

/-- The step relation. -/
def step (j : Journal) (l : JournalLabel) (j' : Journal) : Prop := j.next l = some j'

end Journal
end Broker
end OpenstackPlatform
