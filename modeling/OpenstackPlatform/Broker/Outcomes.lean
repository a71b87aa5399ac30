import OpenstackPlatform.Broker.Portal

/-!
# What the transactions do with accounts and credentials

Every credential belongs to an account and carries the account's generation at the time it was
issued (`Database.holds`).  What a transaction does with accounts and credentials is said once, as an
`Outcome`: at most one account has a security change, which advances its generation, and what is
newly issued carries the generation that the account then has.  Invariants of runs are derived from
the outcomes and do not look into the transactions again.
-/

namespace OpenstackPlatform
namespace Broker

open Library

/-! ## What the tables hold -/

/-- The same account: what identifies a local account is never changed. -/
def User.Same (a b : User) : Prop :=
  b.isLocal = a.isLocal ∧ (a.isLocal = true → b.username = a.username ∧ b.subject = a.subject)

theorem User.Same.refl (a : User) : a.Same a := ⟨rfl, fun _ => ⟨rfl, rfl⟩⟩

theorem User.Same.trans {a b c : User} (h : a.Same b) (h' : b.Same c) : a.Same c := by
  refine ⟨h'.1.trans h.1, fun hlocal => ?_⟩
  have hb := h'.2 (h.1.trans hlocal)
  exact ⟨hb.1.trans (h.2 hlocal).1, hb.2.trans (h.2 hlocal).2⟩

/-- Kind, role and status of an account, and whether it has a password and a confirmed factor. -/
abbrev Standing := Option (Bool × Role × Status) × Option (Bool × Bool)

/-- The standing of an account. -/
def Database.standing (db : Database) (u : UserId) : Standing :=
  ((db.users.lookup u).map fun a => (a.isLocal, a.role, a.status),
    (db.localAccounts.lookup u).map fun a => (a.passwordHash.isSome, a.totpConfirmed))

/-- The standings of accounts that are new. -/
def Standing.Born (s s' : Standing) : Prop :=
  s.1 = none ∧ (s' = (some (false, .owner, .active), s.2) ∨
    ∃ role, s' = (some (true, role, .pending), some (false, false)))

namespace Database

/-- The generation of an account. -/
def gen (db : Database) (u : UserId) : Option Nat := (db.users.lookup u).map User.generation

/-- The account and the generation that a credential of the tables carries. -/
def holds (db : Database) : Credential → Option (UserId × Nat)
  | .session sid => (db.sessions.lookup sid).map fun row => (row.user, row.generation)
  | .link id => (db.accountTokens.lookup id).map fun row => (row.user, row.generation)
  | .enrollment handle => (db.enrollments.lookup handle).map fun row => (row.user, row.generation)
  | _ => none

/-- What a transaction leaves of accounts and credentials: one account may have had a security
change, a new local account has a name and a subject of its own, and the credentials that are new
were issued at the current generation. -/
structure Outcome (db db' : Database) (change : Option UserId) (issued : UserId → Credential → Prop) :
    Prop where
  user : ∀ u a, db.users.lookup u = some a → ∃ a', db'.users.lookup u = some a' ∧ a.Same a' ∧
    a'.generation = if change = some u then a.generation + 1 else a.generation
  added : ∀ u a, db'.users.lookup u = some a → db.users.lookup u = none → a.isLocal = true →
    ∀ v b, db'.users.lookup v = some b → v ≠ u → b.isLocal = true →
      b.username ≠ a.username ∧ b.subject ≠ a.subject
  holds : ∀ c u g, db'.holds c = some (u, g) →
    db.holds c = some (u, g) ∨ (issued u c ∧ db'.gen u = some g)

/-- No credential is issued. -/
def nothing : UserId → Credential → Prop := fun _ _ => False

section Outcomes

variable {db db' db'' : Database} {change : Option UserId} {issued : UserId → Credential → Prop}
  {u : UserId}

theorem Outcome.gen (h : Outcome db db' change issued) {g : Nat} (hg : db.gen u = some g) :
    db'.gen u = some (if change = some u then g + 1 else g) := by
  obtain ⟨a, ha, rfl⟩ := Option.map_eq_some_iff.mp hg
  obtain ⟨a', ha', -, hgen⟩ := h.user u a ha
  unfold Database.gen
  rw [ha', Option.map_some, hgen]

/-- Tables with the same accounts that only lose credentials. -/
theorem outcome_of_users (husers : db'.users = db.users)
    (hholds : ∀ c u g, db'.holds c = some (u, g) →
      db.holds c = some (u, g) ∨ (issued u c ∧ db'.gen u = some g)) :
    Outcome db db' none issued where
  user u a ha := ⟨a, by rw [husers, ha], .refl a, by rw [if_neg (by simp)]⟩
  added u a ha hnone := by
    rw [husers, hnone] at ha
    cases ha
  holds := hholds

/-- One transaction after another, where only one of them changes an account and the first issues
nothing. -/
theorem Outcome.andThen {change' : Option UserId} (h : Outcome db db' change nothing)
    (h' : Outcome db' db'' change' issued) (hchange : change = none ∨ change' = none) :
    Outcome db db'' (change.or change') issued where
  user u a ha := by
    obtain ⟨b, hb, hsame, hgen⟩ := h.user u a ha
    obtain ⟨c, hc, hsame', hgen'⟩ := h'.user u b hb
    refine ⟨c, hc, hsame.trans hsame', ?_⟩
    rcases hchange with rfl | rfl
    · rw [hgen', hgen, if_neg (by simp : ¬ none = some u), Option.none_or]
    · rw [hgen', hgen, if_neg (by simp : ¬ none = some u), Option.or_none]
  added u a ha hnone hlocal v b hb hne hblocal := by
    cases hu : db'.users.lookup u with
    | none => exact h'.added u a ha hu hlocal v b hb hne hblocal
    | some m =>
      obtain ⟨a', ha', hsame, -⟩ := h'.user u m hu
      cases ha.symm.trans ha'
      have hm : m.isLocal = true := by rw [← hsame.1, hlocal]
      cases hv : db'.users.lookup v with
      | none =>
        have hsymm := h'.added v b hb hv hblocal u a ha hne.symm hlocal
        exact ⟨hsymm.1.symm, hsymm.2.symm⟩
      | some k =>
        obtain ⟨b', hb', hsame', -⟩ := h'.user v k hv
        cases hb.symm.trans hb'
        have hk : k.isLocal = true := by rw [← hsame'.1, hblocal]
        rw [(hsame.2 hm).1, (hsame.2 hm).2, (hsame'.2 hk).1, (hsame'.2 hk).2]
        exact h.added u m hu hnone hm v k hv hne hk
  holds c u g hc := by
    rcases h'.holds c u g hc with hmid | hnew
    · rcases h.holds c u g hmid with hold | ⟨hfalse, -⟩
      · exact .inl hold
      · exact hfalse.elim
    · exact .inr hnew

theorem outcome_localAccounts (accounts : Table UserId LocalAccount) :
    Outcome db { db with localAccounts := accounts } none nothing :=
  outcome_of_users rfl fun c u g h => .inl (by cases c <;> exact h)

/-- An update of an account that leaves what identifies it and its generation alone. -/
theorem outcome_modifyUser (f : User → User)
    (hf : ∀ a, a.Same (f a) ∧ (f a).generation = a.generation) :
    Outcome db { db with users := db.users.modify u f } none nothing where
  user v a ha := by
    simp only [Table.lookup_modify, ha, if_neg (by simp : ¬ none = some v), Option.map_some]
    split
    · exact ⟨f a, rfl, (hf a).1, (hf a).2⟩
    · exact ⟨a, rfl, .refl a, rfl⟩
  added v a ha hnone := by
    simp only [Table.lookup_modify, hnone, Option.map_none, ite_self] at ha
    cases ha
  holds c v g h := .inl (by cases c <;> exact h)

variable {user : User}

/-- A new account that the unique constraints allow. -/
theorem outcome_insertUser (accounts : Table UserId LocalAccount)
    (hadmits : db.admits u user = true) :
    Outcome db { db with users := db.users.insert u user, localAccounts := accounts } none
      nothing := by
  unfold admits at hadmits
  simp only [Bool.and_eq_true, Option.isNone_iff_eq_none] at hadmits
  obtain ⟨hnew, hunique⟩ := hadmits
  refine ⟨fun v a ha => ?_, fun v a ha hnone hlocal w b hb hne hblocal => ?_,
    fun c v g h => .inl (by cases c <;> exact h)⟩
  · refine ⟨a, ?_, .refl a, by rw [if_neg (by simp)]⟩
    rw [Table.lookup_insert_ite, if_neg]
    · exact ha
    · rintro rfl
      rw [hnew] at ha
      cases ha
  · rw [Table.lookup_insert_ite] at ha hb
    split at ha
    next heq =>
      cases ha
      rw [if_neg (by rw [← heq]; exact hne)] at hb
      have hother := Table.find?_eq_none.mp hunique w b hb
      simpa [hlocal, hblocal] using hother
    next =>
      rw [hnone] at ha
      cases ha

/-- A security change advances the generation of its account and issues nothing. -/
theorem outcome_securityChange (u : UserId) :
    Outcome db (db.securityChange u) (some u) nothing where
  user v a ha := by
    unfold securityChange
    simp only [Table.lookup_modify, ha, Option.map_some]
    by_cases hv : v = u
    · rw [if_pos hv, if_pos (by rw [hv])]
      exact ⟨_, rfl, ⟨rfl, fun _ => ⟨rfl, rfl⟩⟩, rfl⟩
    · rw [if_neg hv, if_neg (by simpa using Ne.symm hv)]
      exact ⟨a, rfl, .refl a, rfl⟩
  added v a ha hnone := by
    unfold securityChange at ha
    simp only [Table.lookup_modify, hnone, Option.map_none, ite_self] at ha
    cases ha
  holds c v g h := by
    left
    cases c with
    | session sid =>
      obtain ⟨row, hrow, heq⟩ := Option.map_eq_some_iff.mp h
      exact Option.map_eq_some_iff.mpr ⟨row, (Table.lookup_deleteWhere.mp hrow).1, heq⟩
    | link id =>
      obtain ⟨row, hrow, heq⟩ := Option.map_eq_some_iff.mp h
      exact Option.map_eq_some_iff.mpr ⟨row, (Table.lookup_deleteWhere.mp hrow).1, heq⟩
    | enrollment handle =>
      obtain ⟨row, hrow, heq⟩ := Option.map_eq_some_iff.mp h
      exact Option.map_eq_some_iff.mpr ⟨row, (Table.lookup_deleteWhere.mp hrow).1, heq⟩
    | device d => exact h
    | verification r => exact h

theorem outcome_eraseSession (sid : SessionId) :
    Outcome db { db with sessions := db.sessions.erase sid } none nothing := by
  refine outcome_of_users rfl fun c v g h => .inl ?_
  cases c with
  | session sid' =>
    obtain ⟨row, hrow, heq⟩ := Option.map_eq_some_iff.mp h
    by_cases hsid : sid' = sid
    · rw [hsid, AList.lookup_erase] at hrow
      cases hrow
    · rw [AList.lookup_erase_ne hsid] at hrow
      exact Option.map_eq_some_iff.mpr ⟨row, hrow, heq⟩
  | link id => exact h
  | enrollment handle => exact h
  | device d => exact h
  | verification r => exact h

/-- An update of a session that leaves its account and generation alone. -/
theorem outcome_modifySession (sid : SessionId) (f : Session → Session)
    (hf : ∀ row, (f row).user = row.user ∧ (f row).generation = row.generation) :
    Outcome db { db with sessions := db.sessions.modify sid f } none nothing := by
  refine outcome_of_users rfl fun c v g h => .inl ?_
  cases c with
  | session sid' =>
    simp only [holds, Table.lookup_modify] at h ⊢
    split at h
    · rw [Option.map_map] at h
      rw [← h]
      congr 1
      funext row
      rw [Function.comp_apply, (hf row).1, (hf row).2]
    · exact h
  | link id => exact h
  | enrollment handle => exact h
  | device d => exact h
  | verification r => exact h

variable {settings : Settings}

/-- A new session for an account. -/
theorem outcome_mint (huser : db.users.lookup u = some user) (session : SessionId)
    (old : Option SessionId) (reauthenticated : Bool) (proofAt : Option Nat) (now : Nat) :
    Outcome db (mint settings db u user session old reauthenticated proofAt now) none
      (fun v c => v = u ∧ c = .session session) := by
  refine outcome_of_users rfl fun c v g h => ?_
  have hgen : db.gen u = some user.generation := by rw [Database.gen, huser, Option.map_some]
  cases c with
  | session sid =>
    simp only [holds, mint, Table.lookup_insert_ite] at h
    split at h
    next heq =>
      cases h
      exact .inr ⟨⟨rfl, by rw [heq]⟩, hgen⟩
    next hne =>
      left
      cases old with
      | none => exact h
      | some sid' =>
        rcases (outcome_eraseSession sid').holds (.session sid) v g h with hold | ⟨hfalse, -⟩
        · exact hold
        · exact hfalse.elim
  | link id => exact .inl h
  | enrollment handle => exact .inl h
  | device d => exact .inl h
  | verification r => exact .inl h

/-- A new link for an account. -/
theorem outcome_addLink (u : UserId) (purpose : Purpose) (link : Link) (now : Nat) :
    Outcome db (addLink db u purpose link now) none (fun v c => v = u ∧ c = .link link.id) := by
  unfold addLink
  split
  next user huser =>
    refine outcome_of_users rfl fun c v g h => ?_
    cases c with
    | link id =>
      simp only [holds, Table.lookup_insert_ite] at h
      split at h
      next heq =>
        cases h
        refine .inr ⟨⟨rfl, by rw [heq]⟩, ?_⟩
        show (db.users.lookup u).map User.generation = some user.generation
        rw [huser, Option.map_some]
      next => exact .inl h
    | session sid => exact .inl h
    | enrollment handle => exact .inl h
    | device d => exact .inl h
    | verification r => exact .inl h
  next => exact outcome_of_users rfl fun c v g h => .inl h

/-! ## Standings -/

theorem standing_eq (db : Database) {u : UserId} (h : db.users.lookup u = some user) :
    db.standing u = (some (user.isLocal, user.role, user.status),
      (db.localAccounts.lookup u).map fun a => (a.passwordHash.isSome, a.totpConfirmed)) := by
  unfold Database.standing
  rw [h, Option.map_some]

/-- An update of a local account that its standing does not show. -/
theorem standing_modifyAccount (db : Database) (u : UserId) (f : LocalAccount → LocalAccount)
    (hf : ∀ a, db.localAccounts.lookup u = some a →
      (f a).passwordHash.isSome = a.passwordHash.isSome ∧ (f a).totpConfirmed = a.totpConfirmed)
    (v : UserId) :
    { db with localAccounts := db.localAccounts.modify u f }.standing v = db.standing v := by
  unfold Database.standing
  simp only [Table.lookup_modify]
  split
  next heq =>
    subst heq
    cases haccount : db.localAccounts.lookup v with
    | none => rfl
    | some a =>
      obtain ⟨hpassword, hconfirmed⟩ := hf a haccount
      simp only [Option.map_some, hpassword, hconfirmed]
  next => rfl

/-! ## The transactions -/

variable {sid : SessionId} {now : Nat}

theorem sessionRow_eq_ok {kind : Option Role} {row : Session}
    (h : sessionRow settings db sid now kind = .ok (row, user)) :
    db.sessions.lookup sid = some row ∧ db.users.lookup row.user = some user ∧
      user.generation = row.generation ∧ user.role = row.kind ∧ user.enabled = true ∧
      user.status = .active ∧ (row.kind = .admin → user.isLocal = true) ∧
      row.kind.serves kind = true := by
  simp only [sessionRow, bind_eq_ok, found_eq_ok, require_eq_ok, pure, Except.pure,
    Except.ok.injEq, Prod.mk.injEq, Bool.and_eq_true, Bool.or_eq_true, beq_iff_eq,
    bne_iff_ne] at h
  obtain ⟨row', hrow, user', huser, -, ⟨⟨-, hgen⟩, hrole⟩, -, ⟨henabled, hactive⟩, -, hadmin, -,
    hserves, rfl, rfl⟩ := h
  refine ⟨hrow, huser, hgen, hrole, henabled, hactive, fun hkind => ?_, hserves⟩
  rcases hadmin with hne | ⟨hlocal, -⟩
  · exact absurd hkind hne
  · exact hlocal

theorem checkedActor_eq_ok {stepUp : Bool} {row : Session}
    (h : checkedActor settings db sid now stepUp = .ok (row, user)) :
    sessionRow settings db sid now (some .admin) = .ok (row, user) := by
  simp only [checkedActor, bind_eq_ok, require_eq_ok, pure, Except.pure, Except.ok.injEq] at h
  obtain ⟨⟨row', user'⟩, hrow, -, -, heq⟩ := h
  rw [hrow]
  exact congrArg Except.ok heq

theorem outcome_authenticate {kind : Option Role} {touch : Bool}
    (h : authenticate settings db sid now kind touch = .ok db') : Outcome db db' none nothing := by
  simp only [authenticate, bind_eq_ok, pure, Except.pure, Except.ok.injEq] at h
  obtain ⟨-, -, rfl⟩ := h
  split
  · exact outcome_modifySession sid _ fun row => ⟨rfl, rfl⟩
  · exact outcome_of_users rfl fun c v g h => .inl h

theorem outcome_reauthenticate {v : Verified} (h : reauthenticate settings db v sid now = .ok db') :
    Outcome db db' none nothing ∧ ∃ row user,
      sessionRow settings db sid now (some .admin) = .ok (row, user) ∧
        user.generation = v.generation := by
  simp only [reauthenticate, bind_eq_ok, require_eq_ok, pure, Except.pure, Except.ok.injEq,
    beq_iff_eq] at h
  obtain ⟨⟨row, user⟩, hrow, -, hgen, rfl⟩ := h
  exact ⟨outcome_modifySession sid _ fun row => ⟨rfl, rfl⟩, row, user, hrow, hgen⟩

variable {file : Option BootstrapDocument}

/-- What a link that is accepted is: a link of its account at the current generation, or the
operator's. -/
theorem resolveToken_eq_some {link : Link} {resolved : Resolved}
    (h : resolveToken db file link now = some resolved) : link.id ∉ db.usedTokens ∧
      ((∃ row user, db.accountTokens.lookup link.id = some row ∧
          db.users.lookup row.user = some user ∧ row.generation = user.generation ∧
          row.failures < 5 ∧ user.isLocal = true ∧
          resolved = ⟨row.purpose, some (row.user, user)⟩) ∨
        (db.accountTokens.lookup link.id = none ∧ resolved = ⟨.bootstrap, none⟩)) := by
  unfold resolveToken at h
  split at h
  · cases h
  next hused =>
    refine ⟨by simpa using hused, ?_⟩
    split at h
    next row hrow =>
      obtain ⟨user, huser, h⟩ := Option.bind_eq_some_iff.mp h
      split at h
      · cases h
      next hchecks =>
        simp only [Bool.or_eq_true, decide_eq_true_eq, bne_iff_ne, Bool.not_eq_true',
          not_or, not_le, ne_eq, not_not, Bool.not_eq_false] at hchecks
        obtain ⟨⟨⟨⟨hfailures, -⟩, hgen⟩, -⟩, hlocal⟩ := hchecks
        exact .inl ⟨row, user, hrow, huser, hgen, hfailures, hlocal, (Option.some.inj h).symm⟩
    next hnone =>
      obtain ⟨document, -, h⟩ := Option.bind_eq_some_iff.mp h
      split at h
      · exact .inr ⟨hnone, (Option.some.inj h).symm⟩
      · cases h

theorem outcome_openEnrollment {crypto : Crypto} {body : EnrollBody} {binder : Nat}
    {enrolling : Option Enrolling}
    (h : openEnrollment crypto db file body binder now = .ok (db', enrolling)) :
    Outcome db db' none nothing := by
  have hfailures : Outcome db { db with
      accountTokens := db.accountTokens.modify body.link.id fun row =>
        { row with failures := min (row.failures + 1) 5 } } none nothing := by
    refine outcome_of_users rfl fun c v g h => .inl ?_
    cases c with
    | link id =>
      simp only [holds, Table.lookup_modify] at h ⊢
      split at h
      · rw [Option.map_map] at h
        exact h
      · exact h
    | session sid => exact h
    | enrollment handle => exact h
    | device d => exact h
    | verification r => exact h
  simp only [openEnrollment, bind_eq_ok, found_eq_ok, require_eq_ok] at h
  obtain ⟨resolved, -, -, -, -, -, h⟩ := h
  split at h
  · split at h
    · obtain ⟨rfl, -⟩ := Prod.mk.inj (Except.ok.inj h)
      exact hfailures
    · obtain ⟨rfl, -⟩ := Prod.mk.inj (Except.ok.inj h)
      split
      · exact outcome_localAccounts _
      · exact outcome_of_users rfl fun c v g h => .inl h
  · obtain ⟨rfl, -⟩ := Prod.mk.inj (Except.ok.inj h)
    exact outcome_of_users rfl fun c v g h => .inl h

theorem outcome_enrollUser {e : Enrolling} {resolved : Resolved} {draw : EnrollDraw}
    (hresolved : ∀ v a, resolved.user = some (v, a) → db.users.lookup v = some a)
    (h : enrollUser db e resolved draw = .ok (db', u, user)) :
    Outcome db db' none nothing ∧ db'.users.lookup u = some user ∧
      db'.enrollments = db.enrollments ∧ db'.accountTokens = db.accountTokens ∧
      db'.usedTokens = db.usedTokens := by
  unfold enrollUser at h
  split at h
  next v a heq =>
    simp only [Except.ok.injEq, Prod.mk.injEq] at h
    obtain ⟨rfl, rfl, rfl⟩ := h
    exact ⟨outcome_of_users rfl fun c v g h => .inl h, hresolved _ _ heq, rfl, rfl, rfl⟩
  next =>
    simp only [bind_eq_ok, require_eq_ok, pure, Except.pure, Except.ok.injEq,
      Prod.mk.injEq] at h
    obtain ⟨-, hadmits, rfl, rfl, rfl⟩ := h
    refine ⟨outcome_insertUser _ hadmits, ?_, rfl, rfl, rfl⟩
    rw [Table.lookup_insert_ite, if_pos rfl]

/-- `enroll`, second transaction: the link is used up and an enrollment is issued. -/
theorem outcome_commitEnrollment {e : Enrolling} {draw : EnrollDraw}
    (h : commitEnrollment db file e draw now = .ok db') :
    ∃ resolved mid u user, resolveToken db file e.link now = some resolved ∧
      enrollUser db e resolved draw = .ok (mid, u, user) ∧
      Outcome db db' none (fun v c => v = u ∧ c = .enrollment draw.handle) ∧
      db'.usedTokens = e.link.id :: db.usedTokens ∧
      db'.accountTokens = db.accountTokens.erase e.link.id ∧
      db'.enrollments = (db.enrollments.deleteWhere fun _ row => row.expires ≤ now).insert
        draw.handle (e.row u user draw now) ∧
      db'.users = mid.users ∧ db'.localAccounts = mid.localAccounts := by
  simp only [commitEnrollment, bind_eq_ok, found_eq_ok, require_eq_ok] at h
  obtain ⟨resolved, hresolved, ⟨mid, u, user⟩, huser, -, -, h⟩ := h
  cases h
  have hknown : ∀ v a, resolved.user = some (v, a) → db.users.lookup v = some a := by
    intro v a ha
    rcases (resolveToken_eq_some hresolved).2 with ⟨row, b, -, hb, -, -, -, rfl⟩ | ⟨-, rfl⟩
    · cases ha
      exact hb
    · cases ha
  obtain ⟨hmid, hlookup, henrollments, htokens, hused⟩ := outcome_enrollUser hknown huser
  refine ⟨resolved, mid, u, user, hresolved, huser, ?_, by rw [hused], by rw [htokens],
    by rw [henrollments], rfl, rfl⟩
  refine hmid.andThen (outcome_of_users rfl fun c v g h => ?_) (.inl rfl)
  cases c with
  | enrollment handle =>
    simp only [holds, Table.lookup_insert_ite] at h
    split at h
    next heq =>
      cases h
      refine .inr ⟨⟨rfl, by rw [heq]⟩, ?_⟩
      show (mid.users.lookup u).map User.generation = some user.generation
      rw [hlookup, Option.map_some]
    next =>
      obtain ⟨row, hrow, heq⟩ := Option.map_eq_some_iff.mp h
      exact .inl (Option.map_eq_some_iff.mpr ⟨row, (Table.lookup_deleteWhere.mp hrow).1, heq⟩)
  | link id =>
    obtain ⟨row, hrow, heq⟩ := Option.map_eq_some_iff.mp h
    by_cases hid : id = e.link.id
    · subst hid
      rw [AList.lookup_erase] at hrow
      cases hrow
    · rw [AList.lookup_erase_ne hid] at hrow
      exact .inl (Option.map_eq_some_iff.mpr ⟨row, hrow, heq⟩)
  | session sid => exact .inl h
  | device d => exact .inl h
  | verification r => exact .inl h

variable {old : Option SessionId}

/-- `finish`: a wrong code is counted; a right one is a security change, and after it a session. -/
theorem outcome_finish {crypto : Crypto} {handle : Handle} {binder : Nat} {totp : Option String}
    {session : SessionId} {finished : Finished}
    (h : finish crypto settings db handle binder totp session old now = .ok (db', finished)) :
    ∃ row user, db.enrollments.lookup handle = some row ∧ db.users.lookup row.user = some user ∧
      user.generation = row.generation ∧ row.failures < 5 ∧
      match finished with
      | .wrongCode => Outcome db db' none nothing ∧ db'.accountTokens = db.accountTokens ∧
          db'.enrollments = (db.enrollments.modify handle fun row =>
            { row with failures := row.failures + 1 }) ∧ db'.usedTokens = db.usedTokens
      | .signIn => Outcome db db' (some row.user) nothing ∧
          db'.enrollments = db.enrollments.deleteWhere (fun _ r => r.user = row.user) ∧
          db'.accountTokens = db.accountTokens.deleteWhere (fun _ r => r.user = row.user) ∧
          db'.usedTokens = db.usedTokens
      | .session => Outcome db db' (some row.user) (fun v c => v = row.user ∧ c = .session session) ∧
          (∃ latest, db'.users.lookup row.user = some latest) ∧
          db'.enrollments = db.enrollments.deleteWhere (fun _ r => r.user = row.user) ∧
          db'.accountTokens = db.accountTokens.deleteWhere (fun _ r => r.user = row.user) ∧
          db'.usedTokens = db.usedTokens := by
  simp only [finish, bind_eq_ok, found_eq_ok, require_eq_ok, target, Bool.and_eq_true,
    decide_eq_true_eq, beq_iff_eq] at h
  obtain ⟨row, hrow, -, ⟨⟨-, hfailures⟩, -⟩, user, huser, -, hgen, h⟩ := h
  refine ⟨row, user, hrow, huser, hgen, hfailures, ?_⟩
  split at h
  next =>
    cases h
    refine ⟨outcome_of_users rfl fun c v g h => .inl ?_, rfl, rfl, rfl⟩
    cases c with
    | enrollment handle' =>
      simp only [holds, Table.lookup_modify] at h ⊢
      split at h
      · rw [Option.map_map] at h
        exact h
      · exact h
    | session sid => exact h
    | link id => exact h
    | device d => exact h
    | verification r => exact h
  next counter hcode =>
    simp only [bind_eq_ok, require_eq_ok, found_eq_ok] at h
    obtain ⟨-, -, latest, hlatest, h⟩ := h
    -- The account is completed, and then everything issued for it ends.
    have hactive : Outcome db ({ db with
        localAccounts := db.localAccounts.modify row.user fun account => account.complete row counter
        users := db.users.modify row.user fun user => { user with status := .active } }.securityChange
          row.user) (some row.user) nothing := by
      have hstatus : Outcome db { db with
          users := db.users.modify row.user fun user => { user with status := .active } } none
          nothing := outcome_modifyUser _ fun a => ⟨⟨rfl, fun _ => ⟨rfl, rfl⟩⟩, rfl⟩
      exact (hstatus.andThen (outcome_localAccounts (db.localAccounts.modify row.user fun account =>
        account.complete row counter)) (.inl rfl)).andThen (outcome_securityChange row.user)
          (.inl rfl)
    split at h
    · cases h
      exact ⟨hactive, rfl, rfl, rfl⟩
    · cases h
      refine ⟨hactive.andThen (outcome_mint hlatest session old _ _ now) (.inr rfl), ?_, rfl, rfl,
        rfl⟩
      exact ⟨latest, hlatest⟩

theorem outcome_create {name : String} {role : Role} {draw : LinkDraw}
    (h : create settings db sid name role draw now = .ok db') :
    Outcome db db' none (fun v c => v = draw.user ∧ c = .link draw.link.id) := by
  simp only [create, bind_eq_ok, require_eq_ok] at h
  obtain ⟨-, -, -, -, -, hadmits, h⟩ := h
  cases h
  exact (outcome_insertUser _ hadmits).andThen (outcome_addLink _ _ _ _) (.inl rfl)

/-- The update of an account by an action leaves what identifies it. -/
theorem applyUser_same (action : Action) (a : User) :
    a.Same (action.applyUser a) ∧ (action.applyUser a).generation = a.generation := by
  cases action with
  | role r => exact ⟨⟨rfl, fun _ => ⟨rfl, rfl⟩⟩, rfl⟩
  | enabled value => exact ⟨⟨rfl, fun _ => ⟨rfl, rfl⟩⟩, rfl⟩
  | revokeSessions => exact ⟨.refl a, rfl⟩
  | passwordReset => exact ⟨⟨rfl, fun _ => ⟨rfl, rfl⟩⟩, rfl⟩
  | totpReset => exact ⟨⟨rfl, fun _ => ⟨rfl, rfl⟩⟩, rfl⟩
  | invite => exact ⟨.refl a, rfl⟩

theorem outcome_suspend (waits : Bool) : Outcome db (db.suspend u waits) none nothing := by
  unfold Database.suspend
  split
  · exact outcome_modifyUser _ fun a => ⟨⟨rfl, fun _ => ⟨rfl, rfl⟩⟩, rfl⟩
  · exact outcome_of_users rfl fun c v g h => .inl h

theorem outcome_offer (purpose : Option Purpose) (link : Link) (now : Nat) :
    Outcome db (db.offer u purpose link now) none (fun v c => v = u ∧ c = .link link.id) := by
  unfold Database.offer
  split
  · exact outcome_addLink u _ link now
  · exact outcome_of_users rfl fun c v g h => .inl h

theorem outcome_change {action : Action} {link : Link}
    (h : Broker.change settings db sid u action link now = .ok db') :
    Outcome db db' (some u) (fun v c => v = u ∧ c = .link link.id) := by
  simp only [Broker.change, bind_eq_ok, require_eq_ok, target, found_eq_ok] at h
  obtain ⟨-, -, user, huser, -, -, -, -, -, -, latest, hlatest, h⟩ := h
  cases h
  have hchanged : Outcome db ({ db with users := db.users.modify u action.applyUser }.securityChange
      u) (some u) nothing :=
    (outcome_modifyUser _ (applyUser_same action)).andThen (outcome_securityChange u) (.inl rfl)
  have happly : Outcome db (db.apply u action) (some u) nothing :=
    hchanged.andThen (outcome_localAccounts _) (.inr rfl)
  refine Outcome.andThen (happly.andThen (outcome_suspend _) (.inr rfl)) (outcome_offer _ link now)
    (.inr rfl)

theorem account_eq_some {username : String} {account : LocalAccount}
    (h : db.account username = some (u, user, account)) :
    db.users.lookup u = some user ∧ user.isLocal = true ∧ user.username = username ∧
      db.localAccounts.lookup u = some account := by
  unfold Database.account at h
  obtain ⟨⟨v, user'⟩, hfind, h⟩ := Option.bind_eq_some_iff.mp h
  obtain ⟨account', haccount, h⟩ := Option.map_eq_some_iff.mp h
  simp only [Prod.mk.injEq] at h
  obtain ⟨rfl, rfl, rfl⟩ := h
  obtain ⟨hlookup, hname⟩ := Table.find?_eq_some hfind
  simp only [Bool.and_eq_true, beq_iff_eq] at hname
  exact ⟨hlookup, hname.1, hname.2, haccount⟩

theorem outcome_verifySignIn {crypto : Crypto} {v : Verifying} {code : Option String}
    {lockedOut : Bool} {verified : Verified}
    (h : verifySignIn crypto db v code lockedOut now = .ok (db', verified)) :
    Outcome db db' none nothing ∧ db'.users = db.users ∧ ∃ user,
      db.users.lookup verified.user = some user ∧
      user.isLocal = true ∧ user.username = v.username ∧ user.username = verified.username ∧
      user.subject = verified.subject ∧ user.generation = verified.generation := by
  simp only [verifySignIn, bind_eq_ok, found_eq_ok, require_eq_ok] at h
  obtain ⟨_, -, _, -, ⟨u, latest, account⟩, haccount, -, -, -, -, h⟩ := h
  obtain ⟨huser, hlocal, hname, -⟩ := account_eq_some haccount
  split at h
  · simp only [bind_eq_ok, found_eq_ok] at h
    obtain ⟨counter, -, h⟩ := h
    cases h
    exact ⟨outcome_localAccounts _, rfl, latest, huser, hlocal, hname, hname, rfl, rfl⟩
  · simp only [bind_eq_ok, require_eq_ok] at h
    obtain ⟨-, -, h⟩ := h
    cases h
    exact ⟨outcome_of_users rfl fun c v g h => .inl h, rfl, latest, huser, hlocal, hname, hname,
      rfl, rfl⟩

theorem outcome_rehash {v : Verified} {replacement : String}
    (h : rehash db v replacement = .ok db') :
    Outcome db db' none nothing ∧ ∃ u user, db.users.lookup u = some user ∧ user.isLocal = true ∧
      user.username = v.username ∧ user.generation = v.generation := by
  simp only [rehash, bind_eq_ok, found_eq_ok, require_eq_ok, Bool.and_eq_true, beq_iff_eq] at h
  obtain ⟨⟨u, user, account⟩, haccount, -, ⟨⟨⟨hgen, -⟩, -⟩, -⟩, h⟩ := h
  cases h
  obtain ⟨huser, hlocal, hname, -⟩ := account_eq_some haccount
  exact ⟨outcome_localAccounts _, u, user, huser, hlocal, hname, hgen⟩

theorem outcome_login {v : Verified} {session : SessionId}
    (h : login settings db v session old now = .ok (db', u, user)) :
    Outcome db db' none (fun w c => w = u ∧ c = .session session) ∧
      db.users.lookup u = some user ∧ db'.users = db.users ∧ user.isLocal = true ∧
      user.subject = v.subject ∧ user.generation = v.generation := by
  simp only [login, bind_eq_ok, found_eq_ok, require_eq_ok, Bool.and_eq_true, beq_iff_eq] at h
  obtain ⟨⟨u', user'⟩, hfind, -, -, -, hgen, h⟩ := h
  simp only [pure, Except.pure, Except.ok.injEq, Prod.mk.injEq] at h
  obtain ⟨rfl, rfl, rfl⟩ := h
  obtain ⟨hlookup, hsubject⟩ := Table.find?_eq_some hfind
  simp only [Bool.and_eq_true, beq_iff_eq] at hsubject
  exact ⟨outcome_mint hlookup session old _ none now, hlookup, rfl, hsubject.1, hsubject.2, hgen⟩

theorem outcome_commonsCallback {subject : Nat} {username : String} {fresh : UserId}
    {session : SessionId}
    (h : commonsCallback settings db subject username fresh session old now = .ok db') :
    ∃ u, Outcome db db' none (fun v c => v = u ∧ c = .session session) ∧
      ∃ row, db'.sessions.lookup session = some row ∧ row.user = u := by
  simp only [commonsCallback, bind_eq_ok, require_eq_ok] at h
  obtain ⟨-, -, -, hfresh, h⟩ := h
  cases h
  have hinsert : ∀ (v : UserId) (a : User), Outcome db { db with users := db.users.insert v a } none
      nothing → Outcome db (mint settings { db with users := db.users.insert v a } v a session old
        false none now) none (fun w c => w = v ∧ c = .session session) := by
    intro v a hout
    refine hout.andThen (outcome_mint ?_ session old false none now) (.inl rfl)
    rw [Table.lookup_insert_ite, if_pos rfl]
  split
  next v a hfind =>
    obtain ⟨hlookup, hother⟩ := Table.find?_eq_some hfind
    simp only [Bool.and_eq_true, Bool.not_eq_true'] at hother
    refine ⟨v, hinsert v _ ?_, _, AList.lookup_insert _, rfl⟩
    refine ⟨fun w b hb => ?_, fun w b hb hnone => ?_, fun c w g h => .inl (by cases c <;> exact h)⟩
    · rw [Table.lookup_insert_ite, if_neg (by simp : ¬ none = some w)]
      split
      next heq =>
        subst heq
        cases hlookup.symm.trans hb
        exact ⟨_, rfl, ⟨rfl, fun hlocal => absurd hlocal (by simp [hother.1])⟩, rfl⟩
      next => exact ⟨b, hb, .refl b, rfl⟩
    · rw [Table.lookup_insert_ite] at hb
      split at hb
      next heq =>
        subst heq
        rw [hlookup] at hnone
        cases hnone
      next =>
        rw [hnone] at hb
        cases hb
  next hnone =>
    rw [hnone] at hfresh
    simp only [Option.isSome_none, Bool.false_or, Option.isNone_iff_eq_none] at hfresh
    refine ⟨fresh, hinsert fresh _ ?_, _, AList.lookup_insert _, rfl⟩
    refine outcome_insertUser db.localAccounts ?_
    simp only [admits, hfresh, Option.isNone_none, Bool.and_false, Bool.false_and, Bool.true_and,
      Option.isNone_iff_eq_none]
    exact Table.find?_eq_none.mpr fun _ _ _ => rfl

end Outcomes
end Database

end Broker
end OpenstackPlatform
