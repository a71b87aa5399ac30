import Mathlib
import OpenstackPlatform.Broker.Journal
import OpenstackPlatform.Json

/-!
# The cached observations of applications

`Broker.app_model` asks the controller how an application is doing and caches the answer in
`observations`.  A row whose `updated` is positive is displayed as fresh; an admitted intent and a
recorded outcome set it to zero.  A probe that was under way meanwhile must not write it again, so
it compares the number of the application's intents and their latest `updated`, and the
application's row, before it asks and when it writes.

The steps here are those of the journal with the column `updated` of the intents and the clock that
`time.time()` reads, and those of the probes.  Each reading of the clock is later than every reading
before it.  `record` reads it inside its transaction; `dispatch` and `observe_deleted` read it first
and begin their transaction afterwards, so what they read is pending (`State.answers`,
`State.retirements`) and other transactions can commit in between.
-/

namespace OpenstackPlatform
namespace Broker
namespace Observations

open Library

abbrev DeploymentId := Nat

/-! ## What a probe reads -/

/-- A URL as `urlsplit` reads it. -/
structure Url where
  text : String
  scheme : String
  hostname : Option String := none
  username : Option String := none

/-- The fields of `deployment` that are kept. -/
structure AcceptedDeployment where
  deploymentId : Option DeploymentId
  sourceCommit : Option String := none
  acceptedAt : Option String := none

/-- The fields of `live` that are kept. -/
structure Live where
  schedulerAvailable : Option Json := none
  routeAvailable : Option Json := none
  schedulerState : Option Json := none
  allocationHealthy : Option Json := none
  routeHealthy : Option Json := none
  checkedAt : Option Json := none

/-- `sizing` of an answer; `workerFlavor` is `none` unless it is a flavor reference. -/
structure Sizing where
  workerFlavor : Option String
  cpuMHz : Option Int
  memoryMiB : Option Int

/-- What the probe reads of `GET /v1/applications/{app}`.  `activeDeploymentId` is `some none` where
the field is there and is no UUID. -/
structure AppAnswer where
  status : Nat
  errorCode : Option String := none
  applicationId : Option AppId := none
  url : Option Url := none
  deployment : Option AcceptedDeployment := none
  activeDeploymentId : Option (Option DeploymentId) := none
  desiredRunning : Bool := false
  live : Option Live := none
  requiresMaintenance : Bool := false
  sizing : Option Sizing := none

/-- What the probe reads of `GET /v1/deployments/{deployment}`. -/
structure DeploymentAnswer where
  status : Nat
  applicationId : Option AppId := none
  configurationRevision : Option Nat := none

/-- `body` of a cached row. -/
structure Body where
  url : Url
  desiredRunning : Bool
  activeDeploymentId : Option DeploymentId
  acceptedDeployment : Option AcceptedDeployment
  health : Live
  observedAt : Nat
  requiresMaintenance : Bool
  sizing : Option (String × Int × Int)
  deploymentRevision : Option Nat

/-- A row of `observations`. -/
structure Observation where
  body : Body
  updated : Nat

/-- How a probe ends, as far as the controller's answers decide it. -/
inductive Probed where
  /-- definitive evidence that the application is gone -/
  | missing
  /-- `ControllerUnavailable` or `ValidationError` -/
  | unavailable
  | observed (body : Body)

/-- `Broker.app_sizing`; `none` is refused. -/
def appSizing : Option Sizing → Option (Option (String × Int × Int))
  | none => some none
  | some sizing => match sizing.workerFlavor, sizing.cpuMHz, sizing.memoryMiB with
    | some flavor, some cpu, some memory =>
      if 0 ≤ cpu ∧ cpu ≤ 2 ^ 31 - 1 ∧ 0 ≤ memory ∧ memory ≤ 2 ^ 31 - 1 then
        some (some (flavor, cpu, memory))
      else none
    | _, _, _ => none

/-- The URL of an observation: HTTPS, with a host and without a user. -/
def safeUrl (url : Url) : Bool :=
  url.scheme == "https" && url.hostname.any (· != "") && !url.username.any (· != "")

/-- The active deployment of an answer, with the deployment that must come with it. -/
def activeOf (answer : AppAnswer) : Option (Option DeploymentId) :=
  match answer.activeDeploymentId with
  | none => some none
  | some none => none
  | some (some active) =>
    if answer.deployment.any fun accepted => accepted.deploymentId = some active then
      some (some active)
    else none

/-- The configuration revision of the active deployment; `none` is refused. -/
def revisionOf (app : AppId) (active : Option DeploymentId) (deployed : Option DeploymentAnswer) :
    Option (Option Nat) :=
  match active, deployed with
  | none, _ => some none
  | some _, none => none
  | some _, some deployed =>
    if deployed.status = 200 ∧ deployed.applicationId = some app then
      some deployed.configurationRevision
    else none

/-- `Broker.app_model`, the checks of what the controller answers.  `cached` is the row that was
read before; an active deployment that it names must not disappear.  No answer is
`ControllerUnavailable`. -/
def observe (app : AppId) (cached : Option Observation) (answer : Option AppAnswer)
    (deployed : Option DeploymentAnswer) (observedAt : Nat) : Probed :=
  match answer with
  | none => .unavailable
  | some answer =>
    if answer.status = 404 ∧ answer.errorCode = some "APPLICATION_NOT_FOUND" then .missing
    else if answer.status ≠ 200 ∨ answer.applicationId ≠ some app then .unavailable
    else match answer.url, activeOf answer, answer.live, appSizing answer.sizing with
      | some url, some active, some live, some sizing =>
        if !safeUrl url then .unavailable
        else if (cached.bind fun row => row.body.activeDeploymentId).isSome && active.isNone then
          .unavailable
        else match revisionOf app active deployed with
          | none => .unavailable
          | some revision => .observed
            { url := url, desiredRunning := answer.desiredRunning, activeDeploymentId := active
              acceptedDeployment := answer.deployment, health := live, observedAt := observedAt
              requiresMaintenance := answer.requiresMaintenance, sizing := sizing
              deploymentRevision := revision }
      | _, _, _, _ => .unavailable

/-! ## The state -/

/-- A probe under way: the rows that `app_model` was called with and read, and the fingerprint of
the application's intents when it began. -/
structure Probe where
  app : AppId
  row : App
  cached : Option Observation
  generation : Nat × Nat

/-- The database, what is under way, and the last time that was read. -/
structure State where
  journal : Journal := {}
  /-- `intents.updated` -/
  updated : IntentId → Nat := fun _ => 0
  observations : Table AppId Observation := ∅
  /-- flights that the controller answered, with the time that was read then -/
  answers : Table Nat (Option Reply × Nat) := ∅
  /-- applications that were found missing, with the time that was read then -/
  retirements : Table Nat (AppId × Nat) := ∅
  probes : Table Nat Probe := ∅
  clock : Nat := 0

/-- `SELECT COUNT(*) FROM intents WHERE app_id=?` -/
def count (b : Board) (app : AppId) : Nat :=
  b.intents.entries.countP fun e => e.2.app == some app

/-- `SELECT COALESCE(MAX(updated),0) FROM intents WHERE app_id=?` -/
def latest (b : Board) (updated : IntentId → Nat) (app : AppId) : Nat :=
  ((b.intents.entries.filter fun e => e.2.app == some app).map fun e => updated e.1).foldr max 0

namespace State

/-- The tables of the journal. -/
def board (s : State) : Board := s.journal.board

/-- What `app_model` compares: how many intents the application has, and when the latest of them was
updated. -/
def generation (s : State) (app : AppId) : Nat × Nat :=
  (count s.board app, latest s.board s.updated app)

end State

/-- `UPDATE observations SET updated=0 WHERE app_id=?` -/
def invalidate (observations : Table AppId Observation) : Option AppId → Table AppId Observation
  | some app => observations.modify app fun row => { row with updated := 0 }
  | none => observations

/-- `updated` after `retire_app`. -/
def retired (b : Board) (app : AppId) (now : Nat) (updated : IntentId → Nat) : IntentId → Nat :=
  fun i => if (b.intents.lookup i).any (Board.retires app) then now else updated i

/-- The application that a final write retires. -/
def retires (flight : Flight) (reply : Option Reply) : Option AppId :=
  if flight.row.kind = .appDelete ∧ (flight.row.answered reply).1 = .succeeded then flight.row.app
  else none

/-! ## The steps -/

/-- One step; `now` is a reading of the clock.  The rows that `start` is given are whatever earlier
transactions read. -/
inductive Label where
  /-- a transaction of `record`, `create`, `adopt` or `save` -/
  | admission (l : JournalLabel) (now : Nat)
  /-- the first transaction of `dispatch`, or `resume` -/
  | passing (l : JournalLabel)
  /-- `dispatch` has the controller's answer and reads the clock -/
  | reply (flight : Nat) (reply : Option Reply) (now : Nat)
  /-- the last transaction of `dispatch` -/
  | answer (flight : Nat)
  /-- `observe_deleted` has its evidence and reads the clock -/
  | missing (retirement : Nat) (app : AppId) (now : Nat)
  /-- the transaction of `observe_deleted` -/
  | retire (retirement : Nat)
  /-- `app_model` reads the fingerprint and goes on to ask the controller -/
  | start (probe : Nat) (app : AppId) (row : App) (cached : Option Observation)
      (cacheSeconds now : Nat)
  /-- `app_model` has the controller's answers, and writes in a transaction -/
  | finish (probe : Nat) (answer : Option AppAnswer) (deployed : Option DeploymentAnswer)
      (observedAt now : Nat)

/-- What a step does that matters to an observation. -/
inductive Event where
  /-- a mutation of the application is admitted, or its outcome is recorded -/
  | mutated (app : AppId)
  | started (probe : Nat) (app : AppId)
  /-- a probe writes its observation as fresh -/
  | wrote (probe : Nat) (app : AppId)
  | silent
  deriving DecidableEq, Repr

/-- A mutation of an application, if it is one of an application. -/
def Event.ofMutation : Option AppId → Event
  | some app => .mutated app
  | none => .silent

/-- The intent that a label admits, with its application. -/
def admitted : JournalLabel → Option (IntentId × Option AppId)
  | .record i intent => some (i, intent.app)
  | .create i app _ _ _ => some (i, some app)
  | .adopt i app _ _ _ _ => some (i, some app)
  | .save i app _ _ _ _ => some (i, some app)
  | _ => none

/-- The labels that neither admit an intent nor record an outcome. -/
def passes : JournalLabel → Bool
  | .take _ _ _ _ _ _ | .resume _ => true
  | _ => false

/-- `result["stale"]` of a cached row. -/
def stale (cached : Option Observation) (cacheSeconds now : Nat) : Bool :=
  !cached.any fun row => 0 < row.updated && now - row.updated < cacheSeconds

namespace State

/-- `record`: the intent is prepared, and what was observed of its application is outdated. -/
def admission (s : State) (l : JournalLabel) (now : Nat) : Option (State × Event) := do
  let (i, app) ← admitted l
  guard (s.clock < now)
  let journal ← s.journal.next l
  return ({ s with
    journal := journal, updated := Function.update s.updated i now
    observations := invalidate s.observations app, clock := now }, .ofMutation app)

/-- `Journal.dispatch`, last transaction: the outcome is recorded at the time that was read before
the transaction began. -/
def answer (s : State) (f : Nat) : Option (State × Event) := do
  let flight ← s.journal.flights.lookup f
  let (reply, now) ← s.answers.lookup f
  let journal ← s.journal.next (.answer f reply)
  let updated := Function.update s.updated flight.intent now
  let observations := invalidate s.observations flight.row.app
  match retires flight reply with
  | some app => return ({ s with
      journal := journal, answers := s.answers.erase f
      updated := retired (s.board.writeAnswer flight reply) app now updated
      observations := observations.erase app }, .mutated app)
  | none => return ({ s with
      journal := journal, answers := s.answers.erase f
      updated := updated, observations := observations }, .ofMutation flight.row.app)

/-- `Journal.observe_deleted`, its transaction. -/
def retire (s : State) (r : Nat) : Option (State × Event) := do
  let (app, now) ← s.retirements.lookup r
  let journal ← s.journal.next (.observeDeleted app)
  let retirements := s.retirements.erase r
  if (s.board.apps.lookup app).any fun row => row.lifecycle = .ready then
    return ({ s with
      journal := journal, updated := retired s.board app now s.updated
      observations := s.observations.erase app, retirements := retirements }, .mutated app)
  else return ({ s with journal := journal, retirements := retirements }, .silent)

/-- `Broker.app_model`, up to the controller's answers. -/
def start (s : State) (p : Nat) (app : AppId) (row : App) (cached : Option Observation)
    (cacheSeconds now : Nat) : Option (State × Event) := do
  guard ((s.probes.lookup p).isNone ∧ s.clock < now)
  guard (stale cached cacheSeconds now ∧ row.lifecycle = .ready)
  let probe : Probe := { app := app, row := row, cached := cached, generation := s.generation app }
  return ({ s with probes := s.probes.insert p probe, clock := now }, .started p app)

/-- The condition under which a probe writes. -/
def unchanged (s : State) (probe : Probe) : Bool :=
  s.generation probe.app == probe.generation &&
    (s.board.apps.lookup probe.app).any fun row =>
      row.lifecycle == .ready && row.revision == probe.row.revision

/-- `Broker.app_model`, from the controller's answers on.  A missing application is retired by
`observe_deleted`, which `Label.missing` begins. -/
def finish (s : State) (p : Nat) (answer : Option AppAnswer) (deployed : Option DeploymentAnswer)
    (observedAt now : Nat) : Option (State × Event) := do
  let probe ← s.probes.lookup p
  guard (s.clock < observedAt ∧ observedAt < now)
  let s := { s with probes := s.probes.erase p, clock := now }
  match observe probe.app probe.cached answer deployed observedAt with
  | .observed body =>
    if s.unchanged probe then
      return ({ s with observations := s.observations.insert probe.app ⟨body, now⟩ },
        .wrote p probe.app)
    else return (s, .silent)
  | _ => return (s, .silent)

/-- What the step of a label does. -/
def next (s : State) : Label → Option (State × Event)
  | .admission l now => s.admission l now
  | .passing l => do
    guard (passes l)
    let journal ← s.journal.next l
    return ({ s with journal := journal }, .silent)
  | .reply f reply now => do
    guard ((s.journal.flights.lookup f).isSome ∧ (s.answers.lookup f).isNone ∧ s.clock < now)
    return ({ s with answers := s.answers.insert f (reply, now), clock := now }, .silent)
  | .answer f => s.answer f
  | .missing r app now => do
    guard ((s.retirements.lookup r).isNone ∧ s.clock < now)
    return ({ s with retirements := s.retirements.insert r (app, now), clock := now }, .silent)
  | .retire r => s.retire r
  | .start p app row cached cacheSeconds now => s.start p app row cached cacheSeconds now
  | .finish p answer deployed observedAt now => s.finish p answer deployed observedAt now

/-- The step relation; a label comes with its event. -/
def step (s : State) (l : Label × Event) (t : State) : Prop := s.next l.1 = some (t, l.2)

/-- An outcome is recorded in order when no other intent of its application was updated after the
time that it is recorded at. -/
def inOrder (s : State) : Label → Bool
  | .answer f => match s.journal.flights.lookup f, s.answers.lookup f with
    | some flight, some (_, now) => s.board.intents.entries.all fun e =>
      e.1 == flight.intent || e.2.app == none || e.2.app != flight.row.app || s.updated e.1 < now
    | _, _ => true
  | _ => true

end State
end Observations
end Broker
end OpenstackPlatform
