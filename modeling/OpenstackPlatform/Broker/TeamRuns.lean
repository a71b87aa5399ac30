import OpenstackPlatform.Broker.Team
import OpenstackPlatform.Broker.Commits

/-!
# Who is on a team, and who may change it

`Board.Orderly` is the invariant of the tables: an owner is not also a member, only applications that
exist have members, and none has more than `maximumMembers`.  `Team.Authorized` says of a transaction
that the session, the role and the access of its actor hold in the state that it commits in.

`Broker.record`, `reassign` and `resume` check these again where they write.  `Members.add` and
`Members.remove` do not: `team_run` is the law for runs in which, at their writes, the session still
holds and the owner is the one that the request has read.
-/

namespace OpenstackPlatform
namespace Broker

open Library

namespace Board

/-- Whether an application is an account's own. -/
def owned (b : Board) (app : AppId) (u : UserId) : Bool :=
  (b.apps.lookup app).any fun row => row.owner == u

/-- What holds of the teams in every state. -/
structure Orderly (b : Board) : Prop where
  owners : ∀ app row, b.apps.lookup app = some row → b.members.lookup (app, row.owner) = none
  placed : ∀ app u, b.apps.lookup app = none → b.members.lookup (app, u) = none
  bounded : ∀ app, b.memberCount app ≤ maximumMembers

/-- Owners stay, and members only go. -/
structure Shrinks (b b' : Board) : Prop where
  apps : ∀ app, (b'.apps.lookup app).map App.owner = (b.apps.lookup app).map App.owner
  members : ∀ key, b.members.lookup key = none → b'.members.lookup key = none
  count : ∀ app, b'.memberCount app ≤ b.memberCount app

variable {b b' b'' : Board} {app : AppId} {i : IntentId}

theorem Shrinks.trans (h : Shrinks b b') (h' : Shrinks b' b'') : Shrinks b b'' where
  apps app := (h'.apps app).trans (h.apps app)
  members key hnone := h'.members key (h.members key hnone)
  count app := (h'.count app).trans (h.count app)

theorem Orderly.shrinks (h : b.Orderly) (hs : Shrinks b b') : b'.Orderly where
  owners app row' hrow' := by
    have howner := hs.apps app
    rw [hrow', Option.map_some] at howner
    obtain ⟨row, hrow, heq⟩ := Option.map_eq_some_iff.mp howner.symm
    rw [← heq]
    exact hs.members _ (h.owners app row hrow)
  placed app u hnone := by
    have howner := hs.apps app
    rw [hnone, Option.map_none] at howner
    exact hs.members _ (h.placed app u (Option.map_eq_none_iff.mp howner.symm))
  bounded app := (hs.count app).trans (h.bounded app)

/-- An update that leaves owners and members. -/
theorem shrinks_modify (f : App → App) (hf : ∀ row, (f row).owner = row.owner)
    (configurations : Table (AppId × Nat) Configuration) (intents : Table IntentId Intent) :
    Shrinks b { b with
      apps := b.apps.modify app f, configurations := configurations, intents := intents } where
  apps app' := by
    show ((b.apps.modify app f).lookup app').map App.owner = _
    rw [Table.lookup_modify]
    split
    next heq =>
      subst heq
      rw [Option.map_map]
      congr 1
      funext row
      exact hf row
    next => rfl
  members _ hnone := hnone
  count _ := Nat.le_refl _

theorem shrinks_intents (intents : Table IntentId Intent) :
    Shrinks b { b with intents := intents } :=
  ⟨fun _ => rfl, fun _ hnone => hnone, fun _ => Nat.le_refl _⟩

theorem shrinks_record {intent : Intent} (h : b.record i intent = some b') : Shrinks b b' := by
  unfold record at h
  split at h
  · cases h
    exact shrinks_intents _
  · cases h

theorem shrinks_retireApp : Shrinks b (b.retireApp app) where
  apps app' := (@shrinks_modify b app
    (fun row => { row with lifecycle := .deleted, revision := 0 })
    (fun _ => rfl) b.configurations b.intents).apps app'
  members key hnone := by
    show (b.members.deleteWhere _).lookup key = none
    cases hlookup : (b.members.deleteWhere fun key _ => key.1 = app).lookup key with
    | none => rfl
    | some u =>
      rw [(Table.lookup_deleteWhere.mp hlookup).1] at hnone
      cases hnone
  count _ := Table.sumOver_deleteWhere_le _

theorem shrinks_answer (flight : Flight) (reply : Option Reply) :
    Shrinks b (b.answer flight reply) := by
  have hwrite : Shrinks b (b.writeAnswer flight reply) := shrinks_intents _
  unfold answer
  split
  · exact hwrite.trans shrinks_retireApp
  · exact hwrite.trans (shrinks_modify (fun row => { row with lifecycle := .ready })
      (fun _ => rfl) _ _)
  · exact hwrite.trans (shrinks_modify (fun row => { row with lifecycle := .rejected })
      (fun _ => rfl) _ _)
  · exact hwrite

theorem shrinks_take {row : Intent} {authorized : Bool} {now timeout : Nat} :
    Shrinks b (b.take i row authorized now timeout).1 := by
  unfold take
  split
  · exact shrinks_intents _
  · exact shrinks_intents _

theorem shrinks_observeDeleted : Shrinks b (b.observeDeleted app) := by
  unfold observeDeleted
  split
  · exact shrinks_retireApp
  · exact shrinks_intents b.intents

theorem shrinks_resume (h : b.resume i = some b') : Shrinks b b' := by
  unfold resume at h
  split at h
  · split at h
    · cases h
    split at h
    · cases h
    split at h
    · cases h
      exact shrinks_intents _
    · cases h
      exact shrinks_intents b.intents
  · cases h

theorem shrinks_save {user : UserId} {admin : Bool} {revision : Nat} {c : Configuration}
    (h : b.save i app user admin revision c = some b') : Shrinks b b' := by
  simp only [save, Option.bind_eq_bind, Option.bind_eq_some_iff, Option.guard_eq_some'] at h
  obtain ⟨row, -, -, -, b₁, hrecord, h⟩ := h
  cases h
  exact ((shrinks_modify (fun row => { row with revision := revision + 1 }) (fun _ => rfl) _
    _).trans (shrinks_record hrecord)).trans (shrinks_intents _)

/-- A new application has no members. -/
theorem Orderly.insertApp {row : App} (h : b.Orderly) (hnone : b.apps.lookup app = none)
    (configurations : Table (AppId × Nat) Configuration) :
    Orderly { b with apps := b.apps.insert app row, configurations := configurations } where
  owners app' row' hrow' := by
    rw [Table.lookup_insert_ite] at hrow'
    split at hrow'
    next heq =>
      subst heq
      exact h.placed app' _ hnone
    next => exact h.owners app' row' hrow'
  placed app' u hnone' := by
    rw [Table.lookup_insert_ite] at hnone'
    split at hnone'
    · cases hnone'
    · exact h.placed app' u hnone'
  bounded := h.bounded

theorem record_apps {intent : Intent} (h : b.record i intent = some b') : b'.apps = b.apps := by
  unfold record at h
  split at h
  · cases h
    rfl
  · cases h

theorem Orderly.create {owner user : UserId} {admin : Bool} (h : b.Orderly)
    (hcreate : b.create i app owner user admin = some b') : b'.Orderly := by
  simp only [Board.create, Option.bind_eq_bind, Option.bind_eq_some_iff, Option.guard_eq_some',
    Option.isNone_iff_eq_none] at hcreate
  obtain ⟨-, hnone, b₁, hrecord, hcreate⟩ := hcreate
  cases hcreate
  exact (h.shrinks (shrinks_record hrecord)).insertApp (by rw [record_apps hrecord, hnone]) _

theorem Orderly.adopt {owner user : UserId} {revision : Nat} {c : Configuration} (h : b.Orderly)
    (hadopt : b.adopt i app owner user revision c = some b') : b'.Orderly := by
  simp only [Board.adopt, Option.bind_eq_bind, Option.bind_eq_some_iff, Option.guard_eq_some',
    Option.isNone_iff_eq_none] at hadopt
  obtain ⟨-, hnone, b₁, hrecord, hadopt⟩ := hadopt
  cases hadopt
  exact ((h.shrinks (shrinks_record hrecord)).insertApp (by rw [record_apps hrecord, hnone])
    _).shrinks (shrinks_intents _)

/-! ## The team's own transactions -/

/-- A new member who is not the owner. -/
theorem Orderly.addMember {db : Database} {owner : UserId} {access : Access} {name : String}
    (h : b.Orderly) (howner : b.owned app owner = true)
    (hadd : b.addMember db app owner access name = .ok b') : b'.Orderly := by
  simp only [Board.addMember, bind_eq_ok, require_eq_ok, found_eq_ok] at hadd
  obtain ⟨-, -, -, -, -, -, target, -, -, hne, hadd⟩ := hadd
  split at hadd
  · cases hadd
    exact h
  next hfree =>
    simp only [bind_eq_ok, require_eq_ok] at hadd
    obtain ⟨-, hcount, hadd⟩ := hadd
    cases hadd
    rw [Bool.not_eq_true, Option.isSome_eq_false_iff, Option.isNone_iff_eq_none] at hfree
    obtain ⟨row, hrow, heq⟩ := (Option.any_eq_true _ _).mp howner
    constructor
    · intro app' row' hrow'
      show (b.members.insert (app, target) ()).lookup (app', row'.owner) = none
      rw [Table.lookup_insert_ite, if_neg]
      · exact h.owners app' row' hrow'
      · intro hkey
        obtain ⟨rfl, rfl⟩ := Prod.mk.inj hkey
        cases hrow.symm.trans hrow'
        rw [beq_iff_eq.mp heq] at hne
        exact absurd hne (by simp)
    · intro app' u hnone
      show (b.members.insert (app, target) ()).lookup (app', u) = none
      rw [Table.lookup_insert_ite, if_neg]
      · exact h.placed app' u hnone
      · intro hkey
        obtain ⟨rfl, -⟩ := Prod.mk.inj hkey
        rw [show b.apps.lookup app' = none from hnone] at hrow
        cases hrow
    · intro app'
      show Table.sumOver _ (b.members.insert (app, target) ()) ≤ _
      rw [Table.sumOver_insert, Table.sumOver_erase_of_lookup_eq_none hfree]
      split
      next heq =>
        subst heq
        rw [decide_eq_true_eq] at hcount
        rw [Nat.add_comm]
        exact hcount
      next =>
        rw [Nat.zero_add]
        exact h.bounded app'

theorem shrinks_removeMember {user target : UserId} {access : Access}
    (h : b.removeMember app user access target = .ok b') : Shrinks b b' := by
  simp only [removeMember, bind_eq_ok, require_eq_ok] at h
  obtain ⟨-, -, -, -, -, -, h⟩ := h
  cases h
  refine ⟨fun _ => rfl, fun key hnone => ?_, fun _ => Table.sumOver_erase_le _⟩
  show (b.members.erase (app, target)).lookup key = none
  rw [Table.lookup_erase_ite]
  split
  · rfl
  · exact hnone

/-- A new owner who is no longer a member. -/
theorem Orderly.reassign {db : Database} {owner expected : UserId} (h : b.Orderly)
    (hreassign : b.reassign db app owner expected = .ok b') : b'.Orderly := by
  simp only [Board.reassign, bind_eq_ok, require_eq_ok, found_eq_ok] at hreassign
  obtain ⟨-, -, -, -, -, -, -, -, -, -, hreassign⟩ := hreassign
  cases hreassign
  have hmembers : ∀ key, b.members.lookup key = none →
      (b.members.erase (app, owner)).lookup key = none := by
    intro key hnone
    rw [Table.lookup_erase_ite]
    split
    · rfl
    · exact hnone
  constructor
  · intro app' row' hrow'
    replace hrow' : (b.apps.modify app _).lookup app' = some row' := hrow'
    rw [Table.lookup_modify] at hrow'
    split at hrow'
    next heq =>
      subst heq
      obtain ⟨row, -, rfl⟩ := Option.map_eq_some_iff.mp hrow'
      exact AList.lookup_erase _ _
    next => exact hmembers _ (h.owners app' row' hrow')
  · intro app' u hnone
    replace hnone : (b.apps.modify app _).lookup app' = none := hnone
    rw [Table.lookup_modify] at hnone
    split at hnone
    · exact hmembers _ (h.placed app' u (Option.map_eq_none_iff.mp hnone))
    · exact hmembers _ (h.placed app' u hnone)
  · exact fun app' => (Table.sumOver_erase_le _).trans (h.bounded app')

end Board

/-! ## Authority -/

section Authority

variable {settings : Settings} {db : Database} {b : Board} {actor : Actor} {now : Nat}

/-- The session and the role of an actor hold. -/
def Actor.Holds (settings : Settings) (db : Database) (actor : Actor) (now : Nat) : Prop :=
  ∃ row user, sessionRow settings db actor.sid now actor.role = .ok (row, user) ∧
    row.user = actor.user

/-- The session of a request stays the one of its account. -/
def Actor.Named (db : Database) (actor : Actor) : Prop :=
  ∀ row, db.sessions.lookup actor.sid = some row → row.user = actor.user

theorem checkStaff_ok {u : Unit} (h : checkStaff settings db actor now = .ok u)
    (hstaff : actor.staff.isSome = true) (hnamed : actor.Named db) :
    actor.Holds settings db now := by
  unfold checkStaff at h
  split at h
  next hsome =>
    rw [bind_eq_ok] at h
    obtain ⟨⟨row, user⟩, hrow, -⟩ := h
    replace hrow := Database.checkedActor_eq_ok hrow
    refine ⟨row, user, ?_, hnamed row (Database.sessionRow_eq_ok hrow).1⟩
    rw [Actor.role, hsome]
    exact hrow
  next hsome =>
    rw [bind_eq_ok] at h
    obtain ⟨⟨row, user⟩, hrow, -⟩ := h
    refine ⟨row, user, ?_, hnamed row (Database.sessionRow_eq_ok hrow).1⟩
    rw [Actor.role, hsome]
    exact hrow
  next hnone =>
    rw [hnone] at hstaff
    cases hstaff

/-- **What `Broker.record` checks is the authority of its actor.** -/
theorem authorize_ok {u : Unit} (h : authorize settings db b actor now = .ok u)
    (hnamed : actor.Named db) :
    actor.Holds settings db now ∧
      (actor.staff.isSome = true ∨ ∀ app, actor.app = some app → b.hasAccess app actor.user = true) := by
  simp only [authorize, bind_eq_ok] at h
  obtain ⟨_, hstaff, _, -, ⟨row, user⟩, hrow, h⟩ := h
  rw [require_eq_ok, Bool.or_eq_true] at h
  have huser := hnamed row (Database.sessionRow_eq_ok hrow).1
  cases hsome : actor.staff with
  | some deletion =>
    exact ⟨checkStaff_ok hstaff (by rw [hsome]; rfl) hnamed, .inl rfl⟩
  | none =>
    refine ⟨⟨row, user, by rw [Actor.role, hsome]; exact hrow, huser⟩, .inr fun app happ => ?_⟩
    rcases h with h | h
    · rw [hsome] at h
      cases h
    · rw [happ, Option.all_some, huser] at h
      exact h

/-- What `Broker.resume` checks. -/
theorem authorizeResume_ok {i : IntentId} {u : Unit}
    (h : authorizeResume settings db b actor i now = .ok u) (hnamed : actor.Named db) :
    ∃ row user intent, sessionRow settings db actor.sid now none = .ok (row, user) ∧
      row.user = actor.user ∧ b.intents.lookup i = some intent ∧
      (intent.portalAdmin = true → row.kind ≠ .owner) ∧
      (row.kind ≠ .owner ∨ (intent.kind = .createApp ∧ intent.user = actor.user) ∨
        ∃ app, intent.app = some app ∧ b.hasAccess app actor.user = true) := by
  simp only [authorizeResume, bind_eq_ok, found_eq_ok] at h
  obtain ⟨⟨row, user⟩, hrow, intent, hintent, _, hseen, _, -, _, -, haccess⟩ := h
  have hsession := Database.sessionRow_eq_ok hrow
  have hprivileged : (row.kind == .staff || row.kind == .admin) = true → row.kind ≠ .owner := by
    intro h howner
    rw [howner] at h
    cases h
  have hadmin : intent.portalAdmin = true → row.kind ≠ .owner := by
    intro hadmin howner
    rw [checkAccess, if_pos hadmin, bind_eq_ok] at haccess
    obtain ⟨⟨row', user'⟩, hrow', -⟩ := haccess
    have hsession' := Database.sessionRow_eq_ok hrow'
    cases hsession.1.symm.trans hsession'.1
    have hserves := hsession'.2.2.2.2.2.2.2
    rw [howner] at hserves
    cases hserves
  refine ⟨row, user, intent, hrow, hnamed row hsession.1, hintent, hadmin, ?_⟩
  cases hportal : intent.portalAdmin with
  | true => exact .inl (hadmin hportal)
  | false =>
    rw [checkAccess, hportal, if_neg Bool.false_ne_true] at haccess
    rw [require_eq_ok, Bool.or_eq_true, Bool.or_eq_true] at haccess hseen
    rcases haccess with (hrole | hkind) | happ
    · exact .inl (hprivileged hrole)
    · rcases hseen with (hrole | huser) | happ
      · exact .inl (hprivileged hrole)
      · exact .inr (.inl ⟨beq_iff_eq.mp hkind, beq_iff_eq.mp huser⟩)
      · exact .inr (.inr ((Option.any_eq_true _ _).mp happ))
    · exact .inr (.inr ((Option.any_eq_true _ _).mp happ))

end Authority

/-! ## Runs -/

def TeamRequest.actor : TeamRequest → Actor
  | authenticated actor => actor
  | loaded actor _ _ _ => actor

namespace Team

variable (crypto : Crypto) (settings : Settings)

/-- **Authority at commit**: in the state that a transaction commits in, the session and the role of
its actor hold, and the access to the application that the change needs. -/
def Authorized (t : Team) : TeamLabel → Prop
  | .addMember r _ now => ∀ actor app owner access,
    t.requests.lookup r = some (.loaded actor app owner access) →
      actor.Holds settings t.portal.db now ∧
        (actor.staff.isSome = true ∨ t.journal.board.owned app actor.user = true)
  | .removeMember r target now => ∀ actor app owner access,
    t.requests.lookup r = some (.loaded actor app owner access) →
      actor.Holds settings t.portal.db now ∧
        (actor.staff.isSome = true ∨ t.journal.board.owned app actor.user = true ∨
          target = actor.user ∧ (t.journal.board.members.lookup (app, target)).isSome = true)
  | .reassign r _ _ now => ∀ actor app owner access,
    t.requests.lookup r = some (.loaded actor app owner access) →
      actor.Holds settings t.portal.db now ∧ actor.staff.isSome = true
  | .request r _ _ now | .save r _ _ _ now => ∀ actor app owner access,
    t.requests.lookup r = some (.loaded actor app owner access) →
      actor.Holds settings t.portal.db now ∧
        (actor.staff.isSome = true ∨ t.journal.board.hasAccess app actor.user = true)
  | .create r _ _ _ now => ∀ actor, t.requests.lookup r = some (.authenticated actor) →
    actor.Holds settings t.portal.db now
  | .adopt r _ _ _ _ _ now => ∀ actor, t.requests.lookup r = some (.authenticated actor) →
    actor.Holds settings t.portal.db now ∧ actor.staff.isSome = true
  | .resume r i now => ∀ actor, t.requests.lookup r = some (.authenticated actor) →
    ∃ row user intent, sessionRow settings t.portal.db actor.sid now none = .ok (row, user) ∧
      row.user = actor.user ∧ t.journal.board.intents.lookup i = some intent ∧
      (intent.portalAdmin = true → row.kind ≠ .owner) ∧
      (row.kind ≠ .owner ∨ (intent.kind = .createApp ∧ intent.user = actor.user) ∨
        ∃ app, intent.app = some app ∧ t.journal.board.hasAccess app actor.user = true)
  | _ => True

/-- Whether the session of a request still holds, and the owner is the one that it has read. -/
def unchanged (t : Team) (now : Nat) : Option TeamRequest → Bool
  | some (.loaded actor app owner _) =>
    (sessionRow settings t.portal.db actor.sid now actor.role).toOption.isSome &&
      t.journal.board.owned app owner
  | _ => true

/-- Whether what a request has read is still so when it writes; for additions and removals of
members. -/
def current (t : Team) : TeamLabel → Bool
  | .addMember r _ now | .removeMember r _ now => t.unchanged settings now (t.requests.lookup r)
  | _ => true

/-- What a run keeps. -/
structure Sound (t : Team) : Prop where
  past : ∃ es, Portal.Revocation es t.portal
  orderly : t.journal.board.Orderly
  actors : ∀ r request, t.requests.lookup r = some request →
    t.portal.drawn request.actor.sid = true ∧ request.actor.Named t.portal.db
  loaded : ∀ r actor app owner access,
    t.requests.lookup r = some (.loaded actor app owner access) → actor.app = some app ∧
      (access = .admin → actor.staff.isSome = true) ∧ (access = .owner → owner = actor.user)

variable {crypto settings} {t t' : Team} {r : Nat}

theorem sound_init : Sound {} where
  past := ⟨[], Portal.revocation_init⟩
  orderly :=
    { owners := fun app row h => absurd h (by simp)
      placed := fun app u _ => by simp
      bounded := fun app => Nat.zero_le _ }
  actors r request h := absurd h (by simp)
  loaded r actor app owner access h := absurd h (by simp)

/-- A transaction of the portal: no session is another account's than before. -/
theorem Sound.portal (h : t.Sound) {l : Label} {es : List Event} {p : Portal}
    (hstep : Portal.step crypto settings t.portal (l, es) p) : Sound { t with portal := p } := by
  obtain ⟨past, hpast⟩ := h.past
  obtain ⟨before, change, after, rfl, hdoes⟩ := Portal.step_performs hpast hstep
  refine ⟨⟨_, hpast.next hdoes⟩, h.orderly, fun r request hrequest => ?_, h.loaded⟩
  obtain ⟨hdrawn, hnamed⟩ := h.actors r request hrequest
  refine ⟨hdoes.drawn _ hdrawn, fun row hrow => ?_⟩
  have hholds : p.holds (.session request.actor.sid) = some (row.user, row.generation) := by
    show (p.db.sessions.lookup _).map _ = _
    rw [show p.db.sessions.lookup request.actor.sid = some row from hrow, Option.map_some]
  rcases hdoes.holds _ _ _ hholds with hold | ⟨hissued, -⟩
  · replace hold : (t.portal.db.sessions.lookup request.actor.sid).map _ = _ := hold
    obtain ⟨row', hrow', heq⟩ := Option.map_eq_some_iff.mp hold
    obtain ⟨huser, -⟩ := Prod.mk.inj heq
    rw [← huser]
    exact hnamed row' hrow'
  · -- a session that is issued is new
    rcases hdoes.issues _ hissued with hneutral | ⟨u, c, heq, -, ⟨hnew, -⟩ | ⟨d, hdevice, -⟩⟩
    · exact absurd hneutral (by simp [Event.neutral])
    · obtain ⟨-, rfl⟩ := Event.issued.inj heq
      rw [show t.portal.known (.session request.actor.sid) = true from hdrawn] at hnew
      cases hnew
    · obtain ⟨-, hsession⟩ := Event.issued.inj heq
      rw [← hsession] at hdevice
      cases hdevice

/-- A request that goes on. -/
theorem Sound.ask (h : t.Sound) (request : TeamRequest)
    (hdrawn : t.portal.drawn request.actor.sid = true) (hnamed : request.actor.Named t.portal.db)
    (hloaded : ∀ actor app owner access, request = .loaded actor app owner access →
      actor.app = some app ∧ (access = .admin → actor.staff.isSome = true) ∧
        (access = .owner → owner = actor.user)) :
    Sound { t with requests := t.requests.insert r request } where
  past := h.past
  orderly := h.orderly
  actors r' request' hrequest := by
    rw [Table.lookup_insert_ite] at hrequest
    split at hrequest
    · cases hrequest
      exact ⟨hdrawn, hnamed⟩
    · exact h.actors r' request' hrequest
  loaded r' actor app owner access hrequest := by
    rw [Table.lookup_insert_ite] at hrequest
    split at hrequest
    · exact hloaded actor app owner access (Option.some.inj hrequest)
    · exact h.loaded r' actor app owner access hrequest

/-- A session was drawn. -/
theorem Sound.drawn_session (h : t.Sound) {sid : SessionId} {row : Session}
    (hrow : t.portal.db.sessions.lookup sid = some row) : t.portal.drawn sid = true := by
  obtain ⟨past, hpast⟩ := h.past
  refine hpast.keys (.session sid) (row.user, row.generation) ?_
  show (t.portal.db.sessions.lookup sid).map _ = _
  rw [hrow, Option.map_some]

/-- What the access to an application that a request reads says. -/
theorem own_access {b : Board} {actor : Actor} {app : AppId} {owner : UserId} {access : Access}
    (h : (b.own actor app).toOption = some (owner, access)) :
    (access = .admin → actor.staff.isSome = true) ∧ (access = .owner → owner = actor.user) := by
  cases hown : b.own actor app with
  | error e =>
    rw [hown] at h
    exact absurd h (by simp [Except.toOption])
  | ok pair =>
    rw [hown] at h
    cases h
    simp only [Board.own, bind_eq_ok, require_eq_ok] at hown
    obtain ⟨row, -, _, -, _, -, hown⟩ := hown
    obtain ⟨rfl, haccess⟩ := Prod.mk.inj (Except.ok.inj hown)
    split at haccess
    next hstaff => exact ⟨fun _ => hstaff, fun h => absurd (haccess.trans h) (by simp)⟩
    next =>
      split at haccess
      next howner => exact ⟨fun h => absurd (haccess.trans h) (by simp), fun _ => howner⟩
      next =>
        exact ⟨fun h => absurd (haccess.trans h) (by simp), fun h => absurd (haccess.trans h) (by simp)⟩

/-- New tables of the journal. -/
theorem Sound.journal (h : t.Sound) {j : Journal} (horderly : j.board.Orderly) :
    Sound { t with journal := j } :=
  ⟨h.past, horderly, h.actors, h.loaded⟩

/-- The last transaction of a request. -/
theorem Sound.commit (h : t.Sound) {board : Except HttpError Board}
    (hcommit : t.commit r board = some t')
    (horderly : ∀ b, board = .ok b → b.Orderly) : t'.Sound := by
  obtain ⟨b, hb, rfl⟩ := Option.map_eq_some_iff.mp hcommit
  have hboard : board = .ok b := by
    cases board with
    | ok b' => exact congrArg Except.ok (Option.some.inj hb)
    | error e => exact absurd hb (by simp [Except.toOption])
  have hrequests : ∀ {r' request}, (t.requests.erase r).lookup r' = some request →
      t.requests.lookup r' = some request := by
    intro r' request hrequest
    rw [Table.lookup_erase_ite] at hrequest
    split at hrequest
    · cases hrequest
    · exact hrequest
  exact ⟨h.past, horderly b hboard, fun r' request hrequest => h.actors r' request
    (hrequests hrequest), fun r' actor app owner access hrequest =>
    h.loaded r' actor app owner access (hrequests hrequest)⟩

theorem loaded_cases {transaction : Actor → AppId → UserId → Access → Except HttpError Board}
    (h : t.loaded r transaction = some t') :
    ∃ actor app owner access, t.requests.lookup r = some (.loaded actor app owner access) ∧
      t.commit r (transaction actor app owner access) = some t' := by
  unfold loaded at h
  split at h
  next actor app owner access hrequest => exact ⟨actor, app, owner, access, hrequest, h⟩
  next => cases h

theorem authenticated_cases {transaction : Actor → Except HttpError Board}
    (h : t.authenticated r transaction = some t') :
    ∃ actor, t.requests.lookup r = some (.authenticated actor) ∧
      t.commit r (transaction actor) = some t' := by
  unfold authenticated at h
  split at h
  next actor hrequest => exact ⟨actor, hrequest, h⟩
  next => cases h

theorem commit_ok {board : Except HttpError Board} (h : t.commit r board = some t') :
    ∃ b, board = .ok b := by
  obtain ⟨b, hb, -⟩ := Option.map_eq_some_iff.mp h
  cases board with
  | ok b' => exact ⟨b', rfl⟩
  | error e => exact absurd hb (by simp [Except.toOption])

theorem inserted_ok {b : Option Board} {b' : Board} (h : inserted b = .ok b') : b = some b' := by
  rwa [inserted, found_eq_ok] at h

/-- What a request that is still current reads of the owner and the session. -/
theorem unchanged_cases {actor : Actor} {app : AppId} {owner : UserId} {access : Access} {now : Nat}
    (h : t.Sound) (hrequest : t.requests.lookup r = some (.loaded actor app owner access))
    (hcurrent : t.unchanged settings now (t.requests.lookup r) = true) :
    actor.Holds settings t.portal.db now ∧ t.journal.board.owned app owner = true := by
  rw [hrequest] at hcurrent
  simp only [unchanged, Bool.and_eq_true] at hcurrent
  obtain ⟨hsession, howner⟩ := hcurrent
  refine ⟨?_, howner⟩
  cases hrow : sessionRow settings t.portal.db actor.sid now actor.role with
  | error e =>
    rw [hrow] at hsession
    exact absurd hsession (by simp [Except.toOption])
  | ok pair =>
    obtain ⟨row, user⟩ := pair
    exact ⟨row, user, hrow, (h.actors r _ hrequest).2 row (Database.sessionRow_eq_ok hrow).1⟩

/-- **Every current transaction is authorized in the state that it commits in.** -/
theorem step_authorized {l : TeamLabel} (h : t.Sound) (hcurrent : t.current settings l = true)
    (hstep : step crypto settings t l t') : t.Authorized settings l := by
  -- a request that authenticated, with its application left out
  have hbare : ∀ {r actor}, t.requests.lookup r = some (.authenticated actor) → ∀ {now : Nat} {u},
      authorize settings t.portal.db t.journal.board { actor with app := none } now = .ok u →
        actor.Holds settings t.portal.db now := by
    intro r actor hrequest now u hok
    obtain ⟨row, user, hrow, huser⟩ := (authorize_ok hok (h.actors r _ hrequest).2).1
    exact ⟨row, user, hrow, huser⟩
  -- a request that has read its application
  have hloaded : ∀ {r actor app owner access},
      t.requests.lookup r = some (.loaded actor app owner access) → ∀ {now : Nat} {u},
      authorize settings t.portal.db t.journal.board actor now = .ok u →
        actor.Holds settings t.portal.db now ∧
          (actor.staff.isSome = true ∨ t.journal.board.hasAccess app actor.user = true) := by
    intro r actor app owner access hrequest now u hok
    obtain ⟨hholds, haccess⟩ := authorize_ok hok (h.actors r _ hrequest).2
    exact ⟨hholds, haccess.imp_right fun haccess =>
      haccess app (h.loaded r actor app owner access hrequest).1⟩
  cases l with
  | portal l => trivial
  | take f i secret authorized now timeout => trivial
  | answer f reply => trivial
  | observeDeleted app => trivial
  | authenticate r sid app staff now => trivial
  | own r => trivial
  | addMember r name now =>
    intro actor app owner access hrequest
    obtain ⟨hholds, howned⟩ := unchanged_cases h hrequest hcurrent
    obtain ⟨actor', app', owner', access', hrequest', hcommit⟩ := loaded_cases hstep
    obtain ⟨rfl, rfl, rfl, rfl⟩ := TeamRequest.loaded.inj
      (Option.some.inj (hrequest.symm.trans hrequest'))
    obtain ⟨b, hadd⟩ := commit_ok hcommit
    simp only [Board.addMember, bind_eq_ok, require_eq_ok, bne_iff_ne] at hadd
    obtain ⟨-, hnot, -⟩ := hadd
    obtain ⟨-, hadmin, hown⟩ := h.loaded r actor app owner access hrequest
    refine ⟨hholds, ?_⟩
    cases access with
    | owner => exact .inr (hown rfl ▸ howned)
    | member => exact absurd rfl hnot
    | admin => exact .inl (hadmin rfl)
  | removeMember r target now =>
    intro actor app owner access hrequest
    obtain ⟨hholds, howned⟩ := unchanged_cases h hrequest hcurrent
    obtain ⟨actor', app', owner', access', hrequest', hcommit⟩ := loaded_cases hstep
    obtain ⟨rfl, rfl, rfl, rfl⟩ := TeamRequest.loaded.inj
      (Option.some.inj (hrequest.symm.trans hrequest'))
    obtain ⟨b, hremove⟩ := commit_ok hcommit
    simp only [Board.removeMember, bind_eq_ok, require_eq_ok, Bool.or_eq_true, bne_iff_ne,
      beq_iff_eq] at hremove
    obtain ⟨-, hself, -, -, -, hmember, -⟩ := hremove
    obtain ⟨-, hadmin, hown⟩ := h.loaded r actor app owner access hrequest
    refine ⟨hholds, ?_⟩
    cases access with
    | owner => exact .inr (.inl (hown rfl ▸ howned))
    | member => exact .inr (.inr ⟨hself.resolve_left fun hne => hne rfl, hmember⟩)
    | admin => exact .inl (hadmin rfl)
  | reassign r owner expected now =>
    intro actor app owner' access hrequest
    obtain ⟨actor', app', owner'', access', hrequest', hcommit⟩ := loaded_cases hstep
    obtain ⟨rfl, rfl, rfl, rfl⟩ := TeamRequest.loaded.inj
      (Option.some.inj (hrequest.symm.trans hrequest'))
    obtain ⟨b, hreassign⟩ := commit_ok hcommit
    simp only [bind_eq_ok, require_eq_ok] at hreassign
    obtain ⟨_, hstaff, _, hcheck, -⟩ := hreassign
    exact ⟨checkStaff_ok hcheck hstaff (h.actors r _ hrequest).2, hstaff⟩
  | request r i intent now =>
    intro actor app owner access hrequest
    obtain ⟨actor', app', owner', access', hrequest', hcommit⟩ := loaded_cases hstep
    obtain ⟨rfl, rfl, rfl, rfl⟩ := TeamRequest.loaded.inj
      (Option.some.inj (hrequest.symm.trans hrequest'))
    obtain ⟨b, hrecord⟩ := commit_ok hcommit
    obtain ⟨_, hok, -⟩ := bind_eq_ok.mp hrecord
    exact hloaded hrequest hok
  | save r i revision configuration now =>
    intro actor app owner access hrequest
    obtain ⟨actor', app', owner', access', hrequest', hcommit⟩ := loaded_cases hstep
    obtain ⟨rfl, rfl, rfl, rfl⟩ := TeamRequest.loaded.inj
      (Option.some.inj (hrequest.symm.trans hrequest'))
    obtain ⟨b, hsave⟩ := commit_ok hcommit
    obtain ⟨_, hok, -⟩ := bind_eq_ok.mp hsave
    exact hloaded hrequest hok
  | create r i app owner now =>
    intro actor hrequest
    obtain ⟨actor', hrequest', hcommit⟩ := authenticated_cases hstep
    obtain rfl := TeamRequest.authenticated.inj (Option.some.inj (hrequest.symm.trans hrequest'))
    obtain ⟨b, hcreate⟩ := commit_ok hcommit
    simp only [bind_eq_ok] at hcreate
    obtain ⟨_, -, _, hok, -⟩ := hcreate
    exact hbare hrequest hok
  | adopt r i app owner revision configuration now =>
    intro actor hrequest
    obtain ⟨actor', hrequest', hcommit⟩ := authenticated_cases hstep
    obtain rfl := TeamRequest.authenticated.inj (Option.some.inj (hrequest.symm.trans hrequest'))
    obtain ⟨b, hadopt⟩ := commit_ok hcommit
    simp only [bind_eq_ok, require_eq_ok] at hadopt
    obtain ⟨_, hstaff, _, hok, -⟩ := hadopt
    exact ⟨hbare hrequest hok, hstaff⟩
  | resume r i now =>
    intro actor hrequest
    obtain ⟨actor', hrequest', hcommit⟩ := authenticated_cases hstep
    obtain rfl := TeamRequest.authenticated.inj (Option.some.inj (hrequest.symm.trans hrequest'))
    obtain ⟨b, hresume⟩ := commit_ok hcommit
    obtain ⟨_, hok, -⟩ := bind_eq_ok.mp hresume
    exact authorizeResume_ok hok (h.actors r _ hrequest).2

/-- **Every current transaction keeps the teams in order.** -/
theorem step_sound {l : TeamLabel} (h : t.Sound) (hcurrent : t.current settings l = true)
    (hstep : step crypto settings t l t') : t'.Sound := by
  cases l with
  | portal l =>
    obtain ⟨⟨p, es⟩, hnext, rfl⟩ := Option.map_eq_some_iff.mp hstep
    exact h.portal hnext
  | take f i secret authorized now timeout =>
    obtain ⟨j, hnext, rfl⟩ := Option.map_eq_some_iff.mp hstep
    refine h.journal ?_
    simp only [Journal.next] at hnext
    split at hnext
    · split at hnext
      · cases hnext
        exact h.orderly.shrinks Board.shrinks_take
      · cases hnext
    · cases hnext
  | answer f reply =>
    obtain ⟨j, hnext, rfl⟩ := Option.map_eq_some_iff.mp hstep
    obtain ⟨flight, -, rfl⟩ := Option.map_eq_some_iff.mp hnext
    exact h.journal (h.orderly.shrinks (Board.shrinks_answer flight reply))
  | observeDeleted app =>
    cases hstep
    exact h.journal (h.orderly.shrinks Board.shrinks_observeDeleted)
  | authenticate r sid app staff now =>
    simp only [step, next, Option.bind_eq_bind, Option.bind_eq_some_iff] at hstep
    obtain ⟨row, hrow, ⟨p, es⟩, hnext, hstep⟩ := hstep
    cases hstep
    have hasked := h.ask (r := r) (.authenticated ⟨sid, row.user, app, staff⟩)
      (h.drawn_session hrow)
      (fun row' hrow' => congrArg Session.user (Option.some.inj (hrow'.symm.trans hrow)))
      fun actor app' owner access heq => absurd heq (by simp)
    exact hasked.portal hnext
  | own r =>
    simp only [step, next] at hstep
    split at hstep
    next actor hrequest =>
      obtain ⟨app, happ, hstep⟩ := Option.bind_eq_some_iff.mp hstep
      obtain ⟨⟨owner, access⟩, hown, rfl⟩ := Option.map_eq_some_iff.mp hstep
      obtain ⟨hdrawn, hnamed⟩ := h.actors r _ hrequest
      refine h.ask (.loaded actor app owner access) hdrawn hnamed
        fun actor' app' owner' access' heq => ?_
      obtain ⟨rfl, rfl, rfl, rfl⟩ := TeamRequest.loaded.inj heq
      obtain ⟨hadmin, howner⟩ := own_access hown
      exact ⟨happ, hadmin, howner⟩
    next => cases hstep
  | addMember r name now =>
    obtain ⟨actor, app, owner, access, hrequest, hcommit⟩ := loaded_cases hstep
    obtain ⟨-, howned⟩ := unchanged_cases h hrequest hcurrent
    exact h.commit hcommit fun b hadd => h.orderly.addMember howned hadd
  | removeMember r target now =>
    obtain ⟨actor, app, owner, access, hrequest, hcommit⟩ := loaded_cases hstep
    exact h.commit hcommit fun b hremove =>
      h.orderly.shrinks (Board.shrinks_removeMember hremove)
  | reassign r owner expected now =>
    obtain ⟨actor, app, owner', access, hrequest, hcommit⟩ := loaded_cases hstep
    refine h.commit hcommit fun b hreassign => ?_
    simp only [bind_eq_ok] at hreassign
    obtain ⟨_, -, _, -, hreassign⟩ := hreassign
    exact h.orderly.reassign hreassign
  | request r i intent now =>
    obtain ⟨actor, app, owner, access, hrequest, hcommit⟩ := loaded_cases hstep
    refine h.commit hcommit fun b hrecord => ?_
    obtain ⟨_, -, hrecord⟩ := bind_eq_ok.mp hrecord
    exact h.orderly.shrinks (Board.shrinks_record (inserted_ok hrecord))
  | save r i revision configuration now =>
    obtain ⟨actor, app, owner, access, hrequest, hcommit⟩ := loaded_cases hstep
    refine h.commit hcommit fun b hsave => ?_
    obtain ⟨_, -, hsave⟩ := bind_eq_ok.mp hsave
    exact h.orderly.shrinks (Board.shrinks_save (inserted_ok hsave))
  | create r i app owner now =>
    obtain ⟨actor, hrequest, hcommit⟩ := authenticated_cases hstep
    refine h.commit hcommit fun b hcreate => ?_
    simp only [bind_eq_ok] at hcreate
    obtain ⟨_, -, _, -, hcreate⟩ := hcreate
    exact h.orderly.create (inserted_ok hcreate)
  | adopt r i app owner revision configuration now =>
    obtain ⟨actor, hrequest, hcommit⟩ := authenticated_cases hstep
    refine h.commit hcommit fun b hadopt => ?_
    simp only [bind_eq_ok] at hadopt
    obtain ⟨_, -, _, -, _, -, hadopt⟩ := hadopt
    exact h.orderly.adopt (inserted_ok hadopt)
  | resume r i now =>
    obtain ⟨actor, hrequest, hcommit⟩ := authenticated_cases hstep
    refine h.commit hcommit fun b hresume => ?_
    obtain ⟨_, -, hresume⟩ := bind_eq_ok.mp hresume
    exact h.orderly.shrinks (Board.shrinks_resume (inserted_ok hresume))

/-- **The team invariant, and authority at commit.**  Along every run whose additions and removals of
members are current, in every state an owner is not also a member and no application has more than
`maximumMembers`, and every transaction of a request is authorized in the state that it commits in. -/
theorem team_run {ls : List TeamLabel}
    (h : Run (restrict (step crypto settings) fun t l => t.current settings l = true) {} ls t) :
    t.journal.board.Orderly ∧ ∀ l t', step crypto settings t l t' →
      t.current settings l = true → t.Authorized settings l := by
  have hsound : t.Sound := h.invariant sound_init fun _ _ _ hsound hstep =>
    step_sound hsound hstep.2 hstep.1
  exact ⟨hsound.orderly, fun l t' hstep hcurrent => step_authorized hsound hcurrent hstep⟩

/-! ### Runs on fixed inputs -/

/-- The code is always the same, and a password is what its hash is. -/
def openCrypto : Crypto where
  totpCode _ _ := "123456"
  verifyPassword password hash := (password == hash, false)
  casefold name := name

/-- An administrator, and two accounts of the class, one with an application. -/
def classroom : List TeamLabel :=
  ([.issueBootstrap ⟨1, 2⟩ 1000,
    .openEnrollment 3 ⟨⟨1, 2⟩, "root", "correct horse battery", true, none⟩ 4 1001,
    .commitEnrollment 3 ⟨11, 12, 13, 14, "correct horse battery"⟩ 1002,
    .finish 13 4 (some "123456") 17 none none 18 1004,
    .commons 21 "alice" 31 32 none 1005,
    .commons 22 "bob" 33 34 none 1006] : List Label).map .portal ++
  [.authenticate 1 32 none none 1007, .create 1 100 50 0 1008, .take 1 100 false true 1008 5,
    .answer 1 (some { status := 201, applicationId := some 50 })]

/-- The owner adds another account. -/
def adding : List TeamLabel :=
  [.authenticate 2 32 (some 50) none 1009, .own 2, .addMember 2 "bob" 1012]

theorem team_run_adding : ∃ ls t,
    Run (restrict (step openCrypto {}) fun t l => t.current {} l = true) {} ls t ∧
      (t.journal.board.members.lookup (50, 33)).isSome = true ∧ t.journal.board.Orderly := by
  obtain ⟨t, hrun, hmember⟩ := Option.map_eq_some_iff.mp
    (by decide +kernel : (((classroom ++ adding).foldlM
      (fun (t : Team) l => if t.current {} l then t.next openCrypto {} l else none) {}).map fun t =>
        (t.journal.board.members.lookup (50, 33)).isSome) = some true)
  have hrun' : Run (restrict (step openCrypto {}) fun t l => t.current {} l = true) {}
      (classroom ++ adding) t := by
    refine (Run.of_foldlM hrun).mono fun t l t' hnext => ?_
    split at hnext
    next hcurrent => exact ⟨hnext, hcurrent⟩
    next => cases hnext
  exact ⟨_, t, hrun', hmember, (team_run hrun').1⟩

/-- The staff makes the account the owner, between what the owner's request reads and its write. -/
def reassigned : List TeamLabel :=
  [.authenticate 2 32 (some 50) none 1009, .own 2,
    .authenticate 3 17 (some 50) (some false) 1010, .own 3, .reassign 3 33 31 1011,
    .addMember 2 "bob" 1012]

/-- **An owner who is also a member.**  And the account that added it was no longer the owner. -/
theorem owner_member : ∃ ls t, Run (step openCrypto {}) {} ls t ∧ ¬ t.journal.board.Orderly := by
  obtain ⟨t, hrun, ht⟩ := Option.map_eq_some_iff.mp
    (by decide +kernel : (((classroom ++ reassigned).foldlM (next openCrypto {}) {}).map fun t : Team =>
      t.journal.board.owned 50 33 && (t.journal.board.members.lookup (50, 33)).isSome) = some true)
  rw [Bool.and_eq_true] at ht
  obtain ⟨howned, hmember⟩ := ht
  obtain ⟨row, hrow, howner⟩ := (Option.any_eq_true _ _).mp howned
  refine ⟨_, t, Run.of_foldlM hrun, fun horderly => ?_⟩
  have hnone := horderly.owners 50 row hrow
  rw [beq_iff_eq.mp howner] at hnone
  rw [hnone] at hmember
  cases hmember

end Team
end Broker
end OpenstackPlatform
