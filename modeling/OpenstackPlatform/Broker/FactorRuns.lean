import OpenstackPlatform.Broker.Factors

/-!
# Which completions keep the factors

A completion activates its account, so it is where the factors of `FactorInvariant` can be missing:
a factor reset brings no password, and a password reset or an invitation need not bring a factor.
`Portal.sound` is the condition under which neither is missing, and `factors_run` shows that nothing
else can break the invariant.
-/

namespace OpenstackPlatform
namespace Broker

open Library

namespace Portal

/-- What sign-in relies on about active accounts. -/
structure FactorInvariant (p : Portal) : Prop where
  password : ∀ u user, p.db.users.lookup u = some user → user.isLocal = true →
    user.status = .active → ∃ account, p.db.localAccounts.lookup u = some account ∧
      account.passwordHash.isSome = true
  admin : ∀ u user, p.db.users.lookup u = some user → user.role = .admin →
    user.status = .active → p.db.confirmed u = true
  factored : ∀ u user, p.db.users.lookup u = some user → p.factored u = true →
    user.status = .active → p.db.confirmed u = true

/-- Whether the completion of an enrollment is sound: a factor reset is of an account that has a
password, and an account that once had a factor will have one. -/
def soundCompletion (p : Portal) (row : Enrollment) : Bool :=
  (row.purpose != .totpReset ||
    (p.db.localAccounts.lookup row.user).any fun account => account.passwordHash.isSome) &&
  (!p.factored row.user || row.secret.isSome || p.db.confirmed row.user)

/-- Whether a transaction is not an unsound completion. -/
def sound (crypto : Crypto) (p : Portal) : Label → Bool
  | .finish handle _ totp _ _ _ _ now => (p.db.enrollments.lookup handle).all fun row =>
    match checkCode crypto row (p.db.localAccounts.lookup row.user) totp now with
    | .right _ => p.soundCompletion row
    | .wrong => true
  | _ => true

section Runs

variable {crypto : Crypto} {settings : Settings} {p q p' : Portal} {es past : List Event}
  {draws : List Nat} {r : Nat}

theorem standing_confirmed (db : Database) (u : UserId) :
    (db.standing u).confirmed = db.confirmed u := by
  unfold Database.standing Standing.confirmed Database.confirmed
  cases db.localAccounts.lookup u with
  | none => rfl
  | some a => rfl

theorem Factors.invariant (h : Factors p) : FactorInvariant p := by
  have hfits : ∀ u user, p.db.users.lookup u = some user → user.status = .active →
      (user.isLocal = false → user.role ≠ .admin ∧ p.factored u = false) ∧
      (user.isLocal = true → ∃ account, p.db.localAccounts.lookup u = some account ∧
        account.passwordHash.isSome = true ∧
        (user.role = .admin ∨ p.factored u = true → account.totpConfirmed = true)) := by
    intro u user huser hactive
    have hfit := h.fits u
    rw [Database.standing_eq p.db huser, hactive] at hfit
    cases hlocal : user.isLocal with
    | false =>
      rw [hlocal] at hfit
      refine ⟨fun _ => ?_, fun hne => absurd hne (by simp)⟩
      cases haccount : p.db.localAccounts.lookup u with
      | none =>
        rw [haccount] at hfit
        exact hfit
      | some account =>
        rw [haccount] at hfit
        exact hfit.elim
    | true =>
      rw [hlocal] at hfit
      refine ⟨fun hne => absurd hne (by simp), fun _ => ?_⟩
      cases haccount : p.db.localAccounts.lookup u with
      | none =>
        rw [haccount] at hfit
        exact hfit.elim
      | some account =>
        rw [haccount] at hfit
        exact ⟨account, rfl, hfit rfl⟩
  have hconfirmed : ∀ u user, p.db.users.lookup u = some user → user.status = .active →
      user.role = .admin ∨ p.factored u = true → p.db.confirmed u = true := by
    intro u user huser hactive hor
    obtain ⟨hforeign, hlocal⟩ := hfits u user huser hactive
    cases hkind : user.isLocal with
    | false =>
      obtain ⟨hrole, hfactored⟩ := hforeign hkind
      rcases hor with hadmin | hfactor
      · exact absurd hadmin hrole
      · rw [hfactored] at hfactor
        cases hfactor
    | true =>
      obtain ⟨account, haccount, -, hfactor⟩ := hlocal hkind
      show (p.db.localAccounts.lookup u).any _ = true
      rw [haccount]
      exact hfactor hor
  refine ⟨fun u user huser hlocal hactive => ?_, fun u user huser hrole hactive => ?_,
    fun u user huser hfactored hactive => ?_⟩
  · obtain ⟨account, haccount, hpassword, -⟩ := (hfits u user huser hactive).2 hlocal
    exact ⟨account, haccount, hpassword⟩
  · exact hconfirmed u user huser hactive (.inl hrole)
  · exact hconfirmed u user huser hactive (.inr hfactored)

/-! ## The transactions that leave standings alone -/

/-- A step without a security change. -/
theorem moves_plain (hc : Commits p q p' draws)
    (hstanding : ∀ u, q.db.standing u = p.db.standing u ∨ (p.db.standing u).Born (q.db.standing u))
    (hlinks : ∀ id row', q.db.accountTokens.lookup id = some row' →
      (∃ row, p.db.accountTokens.lookup id = some row ∧ row'.user = row.user) ∨
        p.drawn id = false)
    (henrollments : ∀ handle row', q.db.enrollments.lookup handle = some row' →
      (∃ row, p.db.enrollments.lookup handle = some row ∧ row'.user = row.user ∧
        row'.purpose = row.purpose ∧ row'.passwordHash = row.passwordHash ∧
        row'.secret = row.secret) ∨ q.db.Backs row')
    (hfile : q.file = p.file)
    (hrequests : ∀ r e, q.requests r = some (.enrolling e) →
      p.requests r = some (.enrolling e) ∨ p'.Current e) : Moves p p' none where
  drawn _ := hc.keeps
  factored u := by rw [hc.factored, standing_confirmed]
  standing u _ := by
    rw [hc.db]
    exact hstanding u
  changed u hu := absurd hu (by simp)
  link id row' hrow' := by
    rw [hc.db] at hrow'
    rcases hlinks id row' hrow' with ⟨row, hrow, huser⟩ | hfresh
    · exact .inl ⟨row, hrow, huser, by simp⟩
    · exact .inr ⟨hfresh, hc.file.trans hfile⟩
  enrollment handle row' hrow' := by
    rw [hc.db] at hrow' ⊢
    rcases henrollments handle row' hrow' with ⟨row, hrow, hsame⟩ | hbacks
    · exact .inl ⟨row, hrow, by simp, hsame⟩
    · exact .inr hbacks
  file := .inl (hc.file.trans hfile)
  request r e he := by
    rw [hc.requests] at he
    exact hrequests r e he

/-- A step that leaves accounts, links and enrollments alone. -/
theorem moves_untouched (hc : Commits p q p' draws) (h : Untouched p q es) :
    Moves p p' none := by
  refine moves_plain hc h.standing (fun id row hrow => .inl ⟨row, h.links ▸ hrow, rfl⟩)
    (fun handle row hrow => .inl ⟨row, h.enrollments ▸ hrow, rfl, rfl, rfl, rfl⟩) h.file
    (fun r e he => .inl (h.requests r e he))

variable {now : Nat}

theorem moves_issueBootstrap {link : Link} (hfresh : p.drawn link.id = false)
    (hc : Commits p q p' [link.id, link.token])
    (h : p.effect crypto settings (.issueBootstrap link now) = .ok (q, es)) :
    Moves p p' none := by
  cases h
  have hplain : Moves p { p' with file := p.file } none := by
    refine moves_plain (q := p) ⟨hc.db, hc.requests, hc.signed, rfl, hc.drawn, hc.factored⟩
      (fun u => .inl rfl) (fun id row hrow => .inl ⟨row, hrow, rfl⟩)
      (fun handle row hrow => .inl ⟨row, hrow, rfl, rfl, rfl, rfl⟩) rfl (fun r e he => .inl he)
  refine ⟨hplain.drawn, hplain.factored, hplain.standing, hplain.changed, fun id row' hrow' => ?_,
    hplain.enrollment, .inr fun document hdocument => ?_, fun r e he => ?_⟩
  · rw [hc.db] at hrow'
    exact .inl ⟨row', hrow', rfl, by simp⟩
  · rw [hc.file] at hdocument
    cases hdocument
    exact ⟨hfresh, hc.knows (by simp [BootstrapDocument.issue])⟩
  · rw [hc.requests] at he
    exact .inl he

/-- The account of a link that is accepted, with its standing. -/
theorem standing_of_resolved (hinv : Factors p) {link : Link} {resolved : Resolved}
    (h : resolveToken p.db p.file link now = some resolved) :
    (∃ row user account, p.db.accountTokens.lookup link.id = some row ∧
      p.db.users.lookup row.user = some user ∧ user.isLocal = true ∧
      p.db.localAccounts.lookup row.user = some account ∧
      resolved = ⟨row.purpose, some (row.user, user)⟩) ∨
    (p.db.accountTokens.lookup link.id = none ∧ resolved = ⟨.bootstrap, none⟩ ∧
      ∃ document, p.file = some document ∧ document.id = link.id) := by
  rcases (Database.resolveToken_eq_some h).2 with
    ⟨row, user, hrow, huser, -, -, hlocal, hresolved⟩ | ⟨hnone, hresolved⟩
  · left
    have hfit := hinv.fits row.user
    rw [Database.standing_eq p.db huser, hlocal] at hfit
    cases haccount : p.db.localAccounts.lookup row.user with
    | none =>
      rw [haccount] at hfit
      exact hfit.elim
    | some account => exact ⟨row, user, account, hrow, huser, hlocal, haccount, hresolved⟩
  · refine .inr ⟨hnone, hresolved, ?_⟩
    unfold resolveToken at h
    rw [hnone] at h
    split at h
    · cases h
    · obtain ⟨document, hfile, h⟩ := Option.bind_eq_some_iff.mp h
      split at h
      next haccepts =>
        simp only [BootstrapDocument.accepts, Bool.and_eq_true, beq_iff_eq] at haccepts
        exact ⟨document, hfile, haccepts.1.1.1.1.1⟩
      next => cases h

variable {db : Database} {binder : Nat}

/-- `enroll`, first transaction: counters only, and what it has read. -/
theorem openEnrollment_spec {db' : Database} {file : Option BootstrapDocument} {body : EnrollBody}
    {enrolling : Option Enrolling}
    (h : Broker.openEnrollment crypto db file body binder now = .ok (db', enrolling)) :
    ∃ resolved, resolveToken db file body.link now = some resolved ∧
      (∀ u, db'.standing u = db.standing u) ∧ db'.enrollments = db.enrollments ∧
      (∀ id row', db'.accountTokens.lookup id = some row' →
        ∃ row, db.accountTokens.lookup id = some row ∧ row'.user = row.user) ∧
      ∀ e, enrolling = some e → e.link = body.link ∧ e.purpose = resolved.purpose ∧
        e.role = ((resolved.user.map fun v => v.2.role).getD .admin) ∧
        e.prior = resolved.user.bind fun v => db.localAccounts.lookup v.1 := by
  simp only [Broker.openEnrollment, bind_eq_ok, found_eq_ok, require_eq_ok] at h
  obtain ⟨resolved, hresolved, -, -, -, -, h⟩ := h
  refine ⟨resolved, hresolved, ?_⟩
  split at h
  · split at h
    · cases h
      refine ⟨fun u => rfl, rfl, fun id row' hrow' => ?_, fun e he => absurd he (by simp)⟩
      rw [Table.lookup_modify] at hrow'
      split at hrow'
      · obtain ⟨row, hrow, rfl⟩ := Option.map_eq_some_iff.mp hrow'
        exact ⟨row, hrow, rfl⟩
      · exact ⟨row', hrow', rfl⟩
    next counter _ =>
      cases h
      cases huser : resolved.user with
      | none =>
        refine ⟨fun u => rfl, rfl, fun id row hrow => ⟨row, hrow, rfl⟩, fun e he => ?_⟩
        cases he
        exact ⟨rfl, rfl, rfl, rfl⟩
      | some v =>
        refine ⟨fun u => ?_, rfl, fun id row hrow => ⟨row, hrow, rfl⟩, fun e he => ?_⟩
        · exact Database.standing_modifyAccount db v.1 (fun account =>
            { account with lastCounter := counter }) (fun a _ => ⟨rfl, rfl⟩) u
        · cases he
          exact ⟨rfl, rfl, rfl, rfl⟩
  · cases h
    refine ⟨fun u => rfl, rfl, fun id row hrow => ⟨row, hrow, rfl⟩, fun e he => ?_⟩
    cases he
    cases huser : resolved.user with
    | none => exact ⟨rfl, rfl, rfl, rfl⟩
    | some v => exact ⟨rfl, rfl, rfl, rfl⟩

theorem moves_openEnrollment (hinv : Factors p) (hrevocation : Revocation past p)
    {body : EnrollBody} (hc : Commits p q p' [r])
    (h : p.openEnrollment crypto r body binder now = .ok (q, es)) : Moves p p' none := by
  simp only [openEnrollment, bind_eq_ok, found_eq_ok] at h
  obtain ⟨resolved, hresolved, ⟨db, enrolling⟩, hopen, h⟩ := h
  obtain ⟨resolved', hresolved', hstanding, henrollments, htokens, henrolling⟩ :=
    openEnrollment_spec hopen
  cases hresolved.symm.trans hresolved'
  split at h
  next _ e heq =>
    cases h
    refine moves_plain hc (fun u => .inl (hstanding u)) (fun id row hrow => .inl (htokens id row hrow))
      (fun handle row hrow => .inl ⟨row, ?_, rfl, rfl, rfl, rfl⟩) rfl (fun s e' he => ?_)
    · rw [← henrollments]
      exact hrow
    have he : (if s = r then some (.enrolling e) else p.requests s) = some (.enrolling e') := he
    split at he
    next =>
      right
      obtain rfl := Request.enrolling.inj (Option.some.inj he)
      obtain ⟨hlink, hpurpose, hrole, hprior⟩ := henrolling e heq
      have hdb : p'.db = db := hc.db
      have hfile : p'.file = p.file := hc.file
      rcases standing_of_resolved hinv hresolved with
        ⟨row, user, account, hrow, huser, hlocal, haccount, rfl⟩ | ⟨hnone, rfl, document, hdocument, hid⟩
      · have hdrawn : p.drawn body.link.id = true :=
          drawn_of_link hrevocation (k := row.failures) (by rw [linkFailures, hrow, Option.map_some])
        refine ⟨hlink ▸ hc.keeps hdrawn, fun row' hrow' => ?_, fun document hdocument hid => ?_⟩
        · rw [hdb, hlink] at hrow'
          obtain ⟨row'', hrow'', huser''⟩ := htokens _ row' hrow'
          cases hrow.symm.trans hrow''
          refine ⟨user.role, user.status, account.passwordHash.isSome, account.totpConfirmed, ?_,
            hrole, ?_⟩
          · rw [hdb, hstanding, huser'', Database.standing_eq p.db huser, hlocal, haccount]
            rfl
          · rw [hprior]
            show (p.db.localAccounts.lookup row.user).any _ = _
            rw [haccount]
            rfl
        · rw [hfile] at hdocument
          have hlookup := (hinv.file document hdocument).2
          rw [hid, hlink, hrow] at hlookup
          cases hlookup
      · obtain ⟨hdrawn, -⟩ := hinv.file document hdocument
        rw [hid] at hdrawn
        refine ⟨hlink ▸ hc.keeps hdrawn, fun row' hrow' => ?_, fun _ _ _ => hpurpose⟩
        rw [hdb, hlink] at hrow'
        obtain ⟨row, hrow, -⟩ := htokens _ row' hrow'
        rw [hnone] at hrow
        cases hrow
    next => exact .inl he
  next =>
    cases h
    refine moves_plain hc (fun u => .inl (hstanding u)) (fun id row hrow => .inl (htokens id row hrow))
      (fun handle row hrow => .inl ⟨row, ?_, rfl, rfl, rfl, rfl⟩) rfl (fun s e' he => .inl he)
    rw [← henrollments]
    exact hrow

/-- The standing of an account that is inserted, and of the others. -/
theorem standing_insert (db : Database) (u : UserId) (user : User) (account : LocalAccount)
    (v : UserId) :
    { db with
      users := db.users.insert u user
      localAccounts := db.localAccounts.insert u account }.standing v =
      if v = u then (some (user.isLocal, user.role, user.status),
        some (account.passwordHash.isSome, account.totpConfirmed)) else db.standing v := by
  unfold Database.standing
  simp only [Table.lookup_insert_ite]
  split
  · rfl
  · rfl

variable {u : UserId} {user : User}

/-- A new account that waits for its enrollment. -/
theorem born_insert (hadmits : db.admits u user = true) (hlocal : user.isLocal = true)
    (hpending : user.status = .pending) (v : UserId) : { db with
      users := db.users.insert u user
      localAccounts := db.localAccounts.insert u {} }.standing v = db.standing v ∨
    (db.standing v).Born ({ db with
      users := db.users.insert u user
      localAccounts := db.localAccounts.insert u {} }.standing v) := by
  rw [standing_insert]
  split
  next hv =>
    right
    unfold Database.admits at hadmits
    simp only [Bool.and_eq_true, Option.isNone_iff_eq_none] at hadmits
    refine ⟨?_, .inr ⟨user.role, by rw [hlocal, hpending]; rfl⟩⟩
    show (db.users.lookup v).map _ = none
    rw [hv, hadmits.1, Option.map_none]
  next => exact .inl rfl

/-- What an enrollment brings, for the role and the factor that it was made for. -/
theorem row_secret {e : Enrolling} {draw : EnrollDraw}
    (hsecret : (e.row u user draw now).secret = none) (hrole : e.role = .admin) :
    e.prior.any LocalAccount.totpConfirmed = true := by
  have hnot : e.enrollFactor = false := by
    cases hfactor : e.enrollFactor with
    | false => rfl
    | true =>
      rw [Enrolling.row, hfactor] at hsecret
      cases hsecret
  unfold Enrolling.enrollFactor at hnot
  split at hnot
  · cases hnot
  · cases hnot
  · rw [hrole] at hnot
    cases hnot
  · rw [hrole] at hnot
    simpa using hnot

theorem row_passwordHash {e : Enrolling} {draw : EnrollDraw}
    (hpurpose : (e.row u user draw now).purpose ≠ .totpReset) :
    (e.row u user draw now).passwordHash.isSome = true := by
  have hpurpose : e.purpose ≠ .totpReset := hpurpose
  show (if e.purpose = .totpReset then none else some draw.passwordHash).isSome = true
  rw [if_neg hpurpose]
  rfl

theorem moves_commitEnrollment (hinv : Factors p) {draw : EnrollDraw} (hc : Commits p q p' draws)
    (h : p.commitEnrollment r draw now = .ok (q, es)) : Moves p p' none := by
  unfold commitEnrollment at h
  split at h
  next e hrequest =>
    simp only [bind_eq_ok, found_eq_ok] at h
    obtain ⟨resolved, hresolved, ⟨mid, u, user⟩, huser, db, hcommit, h⟩ := h
    cases h
    obtain ⟨resolved', mid', u', user', hresolved', huser', -, -, htokens, henrollments, husers,
      haccounts⟩ := Database.outcome_commitEnrollment hcommit
    cases hresolved.symm.trans hresolved'
    simp only [huser, Except.ok.injEq, Prod.mk.injEq] at huser'
    obtain ⟨rfl, rfl, rfl⟩ := huser'
    obtain ⟨-, hlink, hfile⟩ := hinv.enrolling r e hrequest
    have hstanding : ∀ v, db.standing v = mid.standing v := by
      intro v
      unfold Database.standing
      rw [husers, haccounts]
    -- The account of the enrollment, as the tables are after the transaction.
    have haccount : (∀ v, mid.standing v = p.db.standing v ∨
        (p.db.standing v).Born (mid.standing v)) ∧
        ∃ role status password confirmed,
          mid.standing u = (some (true, role, status), some (password, confirmed)) ∧
          (role = .admin → (e.row u user draw now).secret = none → confirmed = true) := by
      rcases standing_of_resolved hinv hresolved with
        ⟨row, a, account, hrow, ha, hlocal, haccount, rfl⟩ | ⟨-, rfl, document, hdocument, hid⟩
      · obtain ⟨rfl, rfl, rfl⟩ : p.db = mid ∧ row.user = u ∧ a = user := by
          simpa [enrollUser] using huser
        obtain ⟨role, status, password, confirmed, hsame, hrole, hprior⟩ := hlink row hrow
        refine ⟨fun v => .inl rfl, role, status, password, confirmed, hsame, fun hadmin hsecret => ?_⟩
        rw [← hprior]
        exact row_secret hsecret (hrole.trans hadmin)
      · simp only [enrollUser, bind_eq_ok, require_eq_ok, pure, Except.pure, Except.ok.injEq,
          Prod.mk.injEq] at huser
        obtain ⟨-, hadmits, rfl, rfl, rfl⟩ := huser
        refine ⟨born_insert hadmits rfl rfl, .admin, .pending, false, false, ?_, fun _ hsecret => ?_⟩
        · rw [standing_insert, if_pos rfl]
          rfl
        · -- A bootstrap enrollment always brings a factor.
          have hpurpose := hfile document hdocument hid
          rw [Enrolling.row, Enrolling.enrollFactor, hpurpose] at hsecret
          cases hsecret
    obtain ⟨hborn, role, status, password, confirmed, hu, hadmin⟩ := haccount
    refine moves_plain hc (fun v => ?_) (fun id row hrow => .inl ⟨row, ?_, rfl⟩)
      (fun handle row hrow => ?_) rfl (fun s e' he => .inl ?_)
    · show db.standing v = _ ∨ Standing.Born _ (db.standing v)
      rw [hstanding]
      exact hborn v
    · have hrow : db.accountTokens.lookup id = some row := hrow
      rw [htokens] at hrow
      by_cases hid : id = e.link.id
      · rw [hid, AList.lookup_erase] at hrow
        cases hrow
      · rw [AList.lookup_erase_ne hid] at hrow
        exact hrow
    · have hrow : db.enrollments.lookup handle = some row := hrow
      rw [henrollments, Table.lookup_insert_ite] at hrow
      split at hrow
      next =>
        cases hrow
        exact .inr ⟨role, status, password, confirmed, (hstanding u).trans hu, row_passwordHash,
          hadmin⟩
      next =>
        exact .inl ⟨row, (Table.lookup_deleteWhere.mp hrow).1, rfl, rfl, rfl, rfl⟩
    · exact setRequest_enrolling (fun e => by simp) he
  next => cases h

theorem moves_create {sid : SessionId} {name : String} {role : Role} {draw : LinkDraw}
    (hfresh : p.drawn draw.link.id = false) (hc : Commits p q p' draws)
    (h : p.effect crypto settings (.create sid name role draw now) = .ok (q, es)) :
    Moves p p' none := by
  simp only [effect, Broker.create, bind_eq_ok, require_eq_ok] at h
  obtain ⟨⟨row, user⟩, -, db, ⟨-, -, -, -, -, hadmits, hcreate⟩, h⟩ := h
  cases hcreate
  cases h
  obtain ⟨-, hlinks, henrollments⟩ := adds_addLink { p.db with
    users := p.db.users.insert draw.user
      { isLocal := true, subject := draw.subject, username := name, role := role, status := .pending }
    localAccounts := p.db.localAccounts.insert draw.user {} } draw.user .invite draw.link now
  refine moves_plain hc (fun u => ?_) (fun id row hrow => ?_) (fun handle row hrow => .inl ?_) rfl
    (fun s e he => .inl he)
  · have haddLink : ∀ (db : Database) v purpose link now,
        (addLink db v purpose link now).standing u = db.standing u := by
      intro db v purpose link now
      unfold addLink
      split
      · rfl
      · rfl
    show (addLink _ draw.user .invite draw.link now).standing u = _ ∨
      Standing.Born _ ((addLink _ draw.user .invite draw.link now).standing u)
    rw [haddLink]
    exact born_insert hadmits rfl rfl u
  · rcases hlinks id row hrow with hold | ⟨rfl, -⟩
    · exact .inl ⟨row, hold, rfl⟩
    · exact .inr hfresh
  · exact ⟨row, henrollments handle row hrow, rfl, rfl, rfl, rfl⟩

/-! ## Completion -/

/-- What a completion makes of the standing of its account. -/
theorem finish_standing {db' : Database} {handle : Handle} {totp : Option String}
    {session : SessionId} {old : Option SessionId} {finished : Finished} {row : Enrollment}
    (hrow : db.enrollments.lookup handle = some row)
    (h : Broker.finish crypto settings db handle binder totp session old now = .ok (db', finished)) :
    (finished = .wrongCode ∧ ∀ v, db'.standing v = db.standing v) ∨
    (finished ≠ .wrongCode ∧ ∃ counter,
      checkCode crypto row (db.localAccounts.lookup row.user) totp now = .right counter ∧
      ∀ v, db'.standing v = if v = row.user then
        ((db.users.lookup v).map fun a => (a.isLocal, a.role, Status.active),
          (db.localAccounts.lookup v).map fun a =>
            ((row.passwordHash.or a.passwordHash).isSome, row.secret.isSome || a.totpConfirmed))
        else db.standing v) := by
  simp only [Broker.finish, bind_eq_ok, found_eq_ok, require_eq_ok, Database.target] at h
  obtain ⟨row', hrow', -, -, user, huser, -, -, h⟩ := h
  cases hrow.symm.trans hrow'
  split at h
  next =>
    cases h
    exact .inl ⟨rfl, fun v => rfl⟩
  next counter hcode =>
    simp only [bind_eq_ok, require_eq_ok, found_eq_ok] at h
    obtain ⟨-, -, latest, hlatest, h⟩ := h
    have hstanding : ∀ v, ({ db with
        localAccounts := db.localAccounts.modify row.user fun account => account.complete row counter
        users := db.users.modify row.user fun user => { user with status := .active } }.securityChange
          row.user).standing v = if v = row.user then
        ((db.users.lookup v).map fun a => (a.isLocal, a.role, Status.active),
          (db.localAccounts.lookup v).map fun a =>
            ((row.passwordHash.or a.passwordHash).isSome, row.secret.isSome || a.totpConfirmed))
        else db.standing v := by
      intro v
      unfold Database.standing Database.securityChange
      simp only [Table.lookup_modify]
      split
      · simp only [Option.map_map]
        rfl
      · rfl
    split at h
    · cases h
      exact .inr ⟨by simp, counter, hcode, hstanding⟩
    · cases h
      exact .inr ⟨by simp, counter, hcode, hstanding⟩

/-- A step with a security change, which ends the links and the enrollments of its account. -/
theorem moves_changed (hc : Commits p q p' draws)
    (hstanding : ∀ v, v ≠ u → q.db.standing v = p.db.standing v)
    (hfits : (q.db.standing u).Fits (p.factored u || (q.db.standing u).confirmed))
    (hlinks : ∀ id row', q.db.accountTokens.lookup id = some row' →
      (p.db.accountTokens.lookup id = some row' ∧ row'.user ≠ u) ∨ p.drawn id = false)
    (henrollments : ∀ handle row', q.db.enrollments.lookup handle = some row' →
      p.db.enrollments.lookup handle = some row' ∧ row'.user ≠ u)
    (hfile : q.file = p.file) (hrequests : q.requests = p.requests) : Moves p p' (some u) where
  drawn _ := hc.keeps
  factored u := by rw [hc.factored, standing_confirmed]
  standing v hv := by
    rw [hc.db]
    exact .inl (hstanding v fun heq => hv (by rw [heq]))
  changed v hv := by
    cases hv
    rw [hc.factored, ← standing_confirmed, hc.db]
    exact hfits
  link id row' hrow' := by
    rw [hc.db] at hrow'
    rcases hlinks id row' hrow' with ⟨hrow, hne⟩ | hfresh
    · exact .inl ⟨row', hrow, rfl, fun heq => hne (Option.some.inj heq).symm⟩
    · exact .inr ⟨hfresh, hc.file.trans hfile⟩
  enrollment handle row' hrow' := by
    rw [hc.db] at hrow'
    obtain ⟨hrow, hne⟩ := henrollments handle row' hrow'
    exact .inl ⟨row', hrow, fun heq => hne (Option.some.inj heq).symm, rfl, rfl, rfl, rfl⟩
  file := .inl (hc.file.trans hfile)
  request r e he := by
    rw [hc.requests, hrequests] at he
    exact .inl he

/-- What a deletion leaves. -/
theorem lookup_of_deleted {κ ρ : Type} [DecidableEq κ] {t : Table κ ρ} {user : ρ → UserId}
    {k : κ} {r : ρ} (h : (t.deleteWhere fun _ row => user row = u).lookup k = some r) :
    t.lookup k = some r ∧ user r ≠ u := by
  obtain ⟨hrow, hne⟩ := Table.lookup_deleteWhere.mp h
  exact ⟨hrow, by simpa using hne⟩

/-- The standing that a sound completion leaves is allowed. -/
theorem fits_completed (hinv : Factors p) {handle : Handle} {row : Enrollment}
    (hrow : p.db.enrollments.lookup handle = some row)
    (hsound : p.soundCompletion row = true) {s : Standing}
    (hs : s = ((p.db.users.lookup row.user).map fun a => (a.isLocal, a.role, Status.active),
      (p.db.localAccounts.lookup row.user).map fun a =>
        ((row.passwordHash.or a.passwordHash).isSome, row.secret.isSome || a.totpConfirmed))) :
    s.Fits (p.factored row.user || s.confirmed) := by
  simp only [soundCompletion, Bool.and_eq_true, Bool.or_eq_true, bne_iff_ne, Bool.not_eq_true']
    at hsound
  obtain ⟨hpassword, hfactored⟩ := hsound
  obtain ⟨role, status, password, confirmed, hstanding, hhash, hadmin⟩ :=
    hinv.enrollment handle row hrow
  obtain ⟨huser, haccount⟩ := Prod.mk.inj hstanding
  obtain ⟨user, huser', huserEq⟩ := Option.map_eq_some_iff.mp huser
  obtain ⟨account, haccount', haccountEq⟩ := Option.map_eq_some_iff.mp haccount
  obtain ⟨hlocal, hrole, -⟩ := by simpa using huserEq
  obtain ⟨hpass, hconf⟩ := Prod.mk.inj haccountEq
  rw [huser', haccount', Option.map_some, Option.map_some, hlocal] at hs
  subst hs
  intro _
  have hset : (row.secret.isSome || account.totpConfirmed) = true ∨
      (row.secret = none ∧ account.totpConfirmed = false) := by
    cases row.secret with
    | some secret => exact .inl rfl
    | none =>
      cases account.totpConfirmed with
      | true => exact .inl rfl
      | false => exact .inr ⟨rfl, rfl⟩
  refine ⟨?_, fun hor => ?_⟩
  · by_cases hpurpose : row.purpose = .totpReset
    · have hany := hpassword.resolve_left (fun hne => hne hpurpose)
      rw [haccount', Option.any_some] at hany
      cases hnew : row.passwordHash with
      | none => simpa using hany
      | some hash => rfl
    · obtain ⟨hash, hhash⟩ := Option.isSome_iff_exists.mp (hhash hpurpose)
      rw [hhash]
      rfl
  · rcases hset with hset | ⟨hnone, hunconfirmed⟩
    · exact hset
    · exfalso
      rcases hor with hrole' | hfactor
      · rw [hadmin (hrole.symm.trans hrole') hnone] at hconf
        rw [hunconfirmed] at hconf
        cases hconf
      · simp only [Standing.confirmed, Option.any_some, hnone, Option.isSome_none, hunconfirmed,
          Bool.or_self, Bool.or_false] at hfactor
        rcases hfactored with (hno | hsecret) | hconfirmed
        · rw [hno] at hfactor
          cases hfactor
        · rw [hnone] at hsecret
          cases hsecret
        · rw [Database.confirmed, haccount', Option.any_some, hunconfirmed] at hconfirmed
          cases hconfirmed

theorem moves_finish (hinv : Factors p) {handle : Handle} {totp : Option String}
    {session : SessionId} {old : Option SessionId} {device : Option Device} {fresh : Nat}
    (hc : Commits p q p' draws)
    (hsound : p.sound crypto (.finish handle binder totp session old device fresh now) = true)
    (h : p.finish crypto settings handle binder totp session old device fresh now = .ok (q, es)) :
    ∃ change, Moves p p' change := by
  simp only [finish, bind_eq_ok, found_eq_ok] at h
  obtain ⟨row, hrow, ⟨db, finished⟩, hfinish, h⟩ := h
  obtain ⟨row', user, hrow', -, -, -, hout⟩ := Database.outcome_finish hfinish
  cases hrow.symm.trans hrow'
  have hstanding := finish_standing hrow hfinish
  -- A completion, with a session or without one.
  have hcompleted : finished ≠ .wrongCode → q.db = db → q.file = p.file →
      q.requests = p.requests →
      db.enrollments = (p.db.enrollments.deleteWhere fun _ r => r.user = row.user) →
      db.accountTokens = (p.db.accountTokens.deleteWhere fun _ r => r.user = row.user) →
      Moves p p' (some row.user) := by
    intro hne hdb hfile hrequests henrollments htokens
    rcases hstanding with ⟨hwrong, -⟩ | ⟨-, counter, hcode, hstanding⟩
    · exact absurd hwrong hne
    have hsound : p.soundCompletion row = true := by
      simpa [sound, hrow, hcode] using hsound
    refine moves_changed hc (fun v hv => ?_) ?_ (fun id row' hlink => .inl ?_)
      (fun handle row' hlink => ?_) hfile hrequests
    · rw [hdb, hstanding, if_neg hv]
    · rw [hdb]
      exact fits_completed hinv hrow hsound ((hstanding row.user).trans (if_pos rfl))
    · rw [hdb, htokens] at hlink
      exact lookup_of_deleted hlink
    · rw [hdb, henrollments] at hlink
      exact lookup_of_deleted hlink
  cases finished with
  | wrongCode =>
    cases h
    obtain ⟨-, htokens, henrollments, -⟩ := hout
    rcases hstanding with ⟨-, hsame⟩ | ⟨hne, -⟩
    · refine ⟨none, moves_plain hc (fun u => .inl (hsame u))
        (fun id row' hlink => .inl ⟨row', ?_, rfl⟩) (fun handle' row' hlink => .inl ?_) rfl
        (fun s e he => .inl he)⟩
      · rw [← htokens]
        exact hlink
      · have hlink : db.enrollments.lookup handle' = some row' := hlink
        rw [henrollments, Table.lookup_modify] at hlink
        split at hlink
        · obtain ⟨old, hold, rfl⟩ := Option.map_eq_some_iff.mp hlink
          exact ⟨old, hold, rfl, rfl, rfl, rfl⟩
        · exact ⟨row', hlink, rfl, rfl, rfl, rfl⟩
    · exact absurd rfl hne
  | signIn =>
    cases h
    exact ⟨some row.user, hcompleted (by simp) rfl rfl rfl hout.2.1 hout.2.2.1⟩
  | session =>
    simp only [bind_eq_ok, Database.target, found_eq_ok] at h
    obtain ⟨latest, -, h⟩ := h
    cases h
    exact ⟨some row.user, hcompleted (by simp) rfl rfl rfl hout.2.2.1 hout.2.2.2.1⟩

/-! ## Account changes -/

theorem standing_offer (db : Database) (u : UserId) (purpose : Option Purpose) (link : Link)
    (now : Nat) (v : UserId) : (db.offer u purpose link now).standing v = db.standing v := by
  unfold Database.offer addLink
  split
  · split
    · rfl
    · rfl
  · rfl

theorem standing_apply (huser : db.users.lookup u = some user) (action : Action) (v : UserId) :
    (db.apply u action).standing v = if v = u then
      (some ((action.applyUser user).isLocal, (action.applyUser user).role,
        (action.applyUser user).status),
        (db.localAccounts.lookup u).map fun a =>
          ((action.applyAccount a).passwordHash.isSome, (action.applyAccount a).totpConfirmed))
      else db.standing v := by
  unfold Database.standing Database.apply Database.securityChange
  simp only [Table.lookup_modify]
  split
  next heq =>
    subst heq
    rw [huser]
    simp only [Option.map_some, Option.map_map]
    rfl
  next => rfl

theorem standing_suspend (db : Database) (u : UserId) (waits : Bool) (v : UserId) :
    (db.suspend u waits).standing v = if v = u ∧ waits = true then
      ((db.users.lookup v).map fun a => (a.isLocal, a.role, Status.pending), (db.standing v).2)
      else db.standing v := by
  unfold Database.suspend
  split
  next hwaits =>
    unfold Database.standing
    simp only [Table.lookup_modify, hwaits, and_true]
    split
    · rw [Option.map_map]
      rfl
    · rfl
  next hwaits => rw [if_neg (fun h => hwaits h.2)]

/-- What an action makes of an allowed standing is allowed, once an administrator without a factor
waits for one. -/
theorem fits_changed {account : Option LocalAccount} {factored : Bool}
    (hfits : Standing.Fits (some (user.isLocal, user.role, user.status),
      account.map fun a => (a.passwordHash.isSome, a.totpConfirmed)) factored)
    (action : Action) (hadmin : action = .role .admin → user.isLocal = true)
    (hcredential : action.purpose.isSome = true → user.isLocal = true) {s : Standing}
    (hs : s = (some ((action.applyUser user).isLocal, (action.applyUser user).role,
        if needsEnrollment (action.applyUser user) (account.map action.applyAccount) then .pending
        else (action.applyUser user).status),
      account.map fun a =>
        ((action.applyAccount a).passwordHash.isSome, (action.applyAccount a).totpConfirmed))) :
    s.Fits (factored || s.confirmed) := by
  have hkind : (action.applyUser user).isLocal = user.isLocal :=
    (Database.applyUser_same action user).1.1
  rw [hkind] at hs
  subst hs
  cases hlocal : user.isLocal with
  | false =>
    rw [hlocal] at hfits hadmin
    cases account with
    | some a => exact hfits.elim
    | none =>
      obtain ⟨hrole, hfactored⟩ := hfits
      refine ⟨?_, by simp [hfactored, Standing.confirmed]⟩
      cases action with
      | role r =>
        intro heq
        have heq : r = .admin := heq
        cases hadmin (by rw [heq])
      | enabled value => exact hrole
      | revokeSessions => exact hrole
      | passwordReset => exact hrole
      | totpReset => exact hrole
      | invite => exact hrole
  | true =>
    rw [hlocal] at hfits
    cases account with
    | none => exact hfits.elim
    | some a =>
      intro hactive
      split at hactive
      · cases hactive
      next hneeds =>
        -- Resets leave the account pending, so what is active is as it was.
        have hsame : (action.applyAccount a) = a ∧ user.status = .active := by
          cases action with
          | role r => exact ⟨rfl, hactive⟩
          | enabled value => exact ⟨rfl, hactive⟩
          | revokeSessions => exact ⟨rfl, hactive⟩
          | passwordReset => exact absurd hactive (by simp [Action.applyUser])
          | totpReset => exact absurd hactive (by simp [Action.applyUser])
          | invite => exact ⟨rfl, hactive⟩
        obtain ⟨hpassword, hconfirmed⟩ := hfits hsame.2
        rw [hsame.1]
        refine ⟨hpassword, fun hor => ?_⟩
        simp only [needsEnrollment, Option.map_some, Option.any_some, hsame.1, Bool.and_eq_true,
          beq_iff_eq, Bool.not_eq_true', not_and, Bool.not_eq_false] at hneeds
        rcases hor with hrole | hfactored
        · exact hneeds hrole
        · simp only [Standing.confirmed, Bool.or_eq_true] at hfactored
          rcases hfactored with hfactored | hnow
          · exact hconfirmed (.inr hfactored)
          · exact hsame.1 ▸ hnow

theorem moves_change (hinv : Factors p) {sid : SessionId} {action : Action} {link : Link}
    (hfresh : p.drawn link.id = false) (hc : Commits p q p' draws)
    (h : p.effect crypto settings (.change sid u action link now) = .ok (q, es)) :
    Moves p p' (some u) := by
  simp only [effect, Broker.change, bind_eq_ok, require_eq_ok, Database.target, found_eq_ok] at h
  obtain ⟨⟨row, actor⟩, -, db, ⟨-, -, user, huser, -, hadmin, -, hpurpose, -, -, latest, hlatest,
    hchange⟩, h⟩ := h
  cases hchange
  cases h
  have hlatest' : latest.role = (action.applyUser user).role := by
    have hstanding := standing_apply huser action u
    rw [Database.standing_eq _ hlatest, if_pos rfl] at hstanding
    exact (Prod.mk.inj (Prod.mk.inj (Option.some.inj (Prod.mk.inj hstanding).1)).2).1
  have hfactor : (p.db.apply u action).localAccounts.lookup u =
      (p.db.localAccounts.lookup u).map action.applyAccount := by
    show (p.db.localAccounts.modify u action.applyAccount).lookup u = _
    rw [Table.lookup_modify, if_pos rfl]
  have hstanding : ∀ v, ((p.db.apply u action).suspend u (needsEnrollment latest
      ((p.db.apply u action).localAccounts.lookup u))).standing v = if v = u then
        (some ((action.applyUser user).isLocal, (action.applyUser user).role,
          if needsEnrollment (action.applyUser user)
            ((p.db.localAccounts.lookup u).map action.applyAccount) then .pending
          else (action.applyUser user).status),
          (p.db.localAccounts.lookup u).map fun a =>
            ((action.applyAccount a).passwordHash.isSome, (action.applyAccount a).totpConfirmed))
        else p.db.standing v := by
    intro v
    have hneeds : needsEnrollment latest ((p.db.apply u action).localAccounts.lookup u) =
        needsEnrollment (action.applyUser user)
          ((p.db.localAccounts.lookup u).map action.applyAccount) := by
      unfold needsEnrollment
      rw [hlatest', hfactor]
    rw [standing_suspend, hneeds]
    by_cases hv : v = u
    · subst hv
      rw [if_pos rfl]
      have happly := standing_apply huser action v
      rw [if_pos rfl] at happly
      by_cases hwaits : needsEnrollment (action.applyUser user)
          ((p.db.localAccounts.lookup v).map action.applyAccount) = true
      · rw [if_pos ⟨rfl, hwaits⟩, if_pos hwaits, happly]
        have hfirst := (Prod.mk.inj happly).1
        rw [hlatest] at hfirst ⊢
        simp only [Option.map_some, Option.some.injEq, Prod.mk.injEq] at hfirst ⊢
        exact ⟨⟨hfirst.1, hfirst.2.1, trivial⟩, trivial⟩
      · rw [if_neg (fun h => hwaits h.2), if_neg hwaits, happly]
    · rw [if_neg (fun h => hv h.1), if_neg hv, standing_apply huser, if_neg hv]
  have hfits := hinv.fits u
  rw [Database.standing_eq p.db huser] at hfits
  refine moves_changed hc (fun v hv => ?_) ?_ (fun id row' hlink => ?_)
    (fun handle row' hlink => ?_) rfl rfl
  · show (Database.offer _ u _ link now).standing v = _
    rw [standing_offer, hstanding, if_neg hv]
  · show ((Database.offer _ u _ link now).standing u).Fits (_ || (Standing.confirmed
      ((Database.offer _ u _ link now).standing u)))
    rw [standing_offer]
    refine fits_changed hfits action (fun heq => ?_) (fun hsome => ?_)
      ((hstanding u).trans (if_pos rfl))
    · simpa [heq] using hadmin
    · cases hp : action.purpose with
      | none =>
        rw [hp] at hsome
        cases hsome
      | some purpose => simpa [hp] using hpurpose
  · rcases (adds_offer _ u _ link now).links id row' hlink with hold | ⟨rfl, -⟩
    · have hdeleted : (p.db.accountTokens.deleteWhere fun _ row => row.user = u).lookup id =
          some row' := by
        unfold Database.suspend at hold
        split at hold
        · exact hold
        · exact hold
      exact .inl (lookup_of_deleted hdeleted)
    · exact .inr hfresh
  · have hold := (adds_offer _ u _ link now).enrollments handle row' hlink
    have hdeleted : (p.db.enrollments.deleteWhere fun _ row => row.user = u).lookup handle =
        some row' := by
      unfold Database.suspend at hold
      split at hold
      · exact hold
      · exact hold
    exact lookup_of_deleted hdeleted

/-! ## Every run -/

/-- **Every sound step moves standings as `Moves` says.** -/
theorem step_moves (hinv : Factors p) (hrevocation : Revocation past p) {l : Label}
    (hsound : p.sound crypto l = true) (h : step crypto settings p (l, es) p') :
    ∃ change, Moves p p' change := by
  obtain ⟨-, hfresh, q, heffect, hc⟩ := next_eq_some h
  cases l with
  | issueBootstrap link now =>
    exact ⟨none, moves_issueBootstrap (hfresh link.id (by simp [Label.draws])) hc heffect⟩
  | openEnrollment r body binder now => exact ⟨none, moves_openEnrollment hinv hrevocation hc heffect⟩
  | commitEnrollment r draw now => exact ⟨none, moves_commitEnrollment hinv hc heffect⟩
  | finish handle binder totp session old device fresh now =>
    exact moves_finish hinv hc hsound heffect
  | create sid name role draw now =>
    exact ⟨none, moves_create (hfresh draw.link.id (by simp [Label.draws])) hc heffect⟩
  | change sid u action link now =>
    exact ⟨some u, moves_change hinv (hfresh link.id (by simp [Label.draws])) hc heffect⟩
  | _ => exact ⟨none, moves_untouched hc (untouched_of_effect hrevocation heffect rfl)⟩

theorem factors_init : Factors {} where
  fits u := rfl
  enrollment handle row hrow := absurd hrow (by simp)
  file document hdocument := absurd hdocument (by simp)
  enrolling r e he := absurd he (by simp)

/-- **The factors of active accounts.**  In every run whose completions are sound, every active local
account has a password, every active administrator a confirmed second factor, and so has every
active account that once had one. -/
theorem factors_run {ls : List (Label × List Event)} {p : Portal}
    (h : Run (restrict (step crypto settings) fun p l => p.sound crypto l.1 = true) {} ls p) :
    FactorInvariant p := by
  suffices hall : Revocation (history ls) p ∧ Factors p from hall.2.invariant
  refine h.invariant_trace (I := fun ls p => Revocation (history ls) p ∧ Factors p)
    ⟨revocation_init, factors_init⟩ ?_
  rintro ls p l p' ⟨hrevocation, hfactors⟩ ⟨hstep, hsound⟩
  obtain ⟨before, change, after, hes, hdoes⟩ := step_performs hrevocation hstep
  obtain ⟨change', hmoves⟩ := step_moves hfactors hrevocation hsound hstep
  refine ⟨?_, hfactors.next (fun id row hrow => ?_) hmoves⟩
  · rw [history_snoc, hes]
    exact hrevocation.next hdoes
  · exact drawn_of_link hrevocation (k := row.failures) (by rw [linkFailures, hrow, Option.map_some])

/-- The first administrator enrolls and creates an account. -/
def invitationLabels : List Label :=
  [.issueBootstrap ⟨1, 2⟩ 1000,
    .openEnrollment 3 ⟨⟨1, 2⟩, "root", "correct horse battery", true, none⟩ 4 1001,
    .commitEnrollment 3 ⟨11, 12, 13, 14, "correct horse battery"⟩ 1002,
    .finish 13 4 (some "123456") 17 none none 18 1004,
    .create 17 "alice" .owner ⟨21, 22, ⟨23, 24⟩⟩ 1005]

theorem factors_run_invitation : ∃ ls p user,
    Run (restrict (step plainCrypto {}) fun p l => p.sound plainCrypto l.1 = true) {} ls p ∧
      p.db.users.lookup 11 = some user ∧ user.status = .active ∧ user.role = .admin ∧
      FactorInvariant p := by
  obtain ⟨⟨p, ls⟩, hrun, huser⟩ := Option.map_eq_some_iff.mp
    (by decide +kernel : ((runInputs (guardedNext (next plainCrypto {}) (sound plainCrypto)) {}
      invitationLabels).map fun r => r.1.db.users.lookup 11) = some (some
        { isLocal := true, subject := 12, username := "root", role := .admin, generation := 2 }))
  exact ⟨ls, p, _, Run.of_guardedNext hrun, huser, rfl, rfl, factors_run (Run.of_guardedNext hrun)⟩

/-- The factor of the invited account is reset before it has a password, and the link is used. -/
def resetInvitedLabels : List Label :=
  invitationLabels ++ [.change 17 21 .totpReset ⟨25, 26⟩ 1006,
    .openEnrollment 27 ⟨⟨25, 26⟩, "", "", false, none⟩ 28 1007,
    .commitEnrollment 27 ⟨31, 32, 33, 34, ""⟩ 1008,
    .finish 33 28 (some "000000") 35 none none 36 1009]

/-- The invited account enrolls with a factor; its factor is reset, and then its password. -/
def resetTwiceLabels : List Label :=
  invitationLabels ++ [.openEnrollment 27 ⟨⟨23, 24⟩, "", "battery staple horse", true, none⟩ 28 1007,
    .commitEnrollment 27 ⟨31, 32, 33, 34, "battery staple horse"⟩ 1008,
    .finish 33 28 (some "000000") 35 none none 36 1009,
    .change 17 21 .totpReset ⟨37, 38⟩ 1010,
    .change 17 21 .passwordReset ⟨39, 40⟩ 1011,
    .openEnrollment 41 ⟨⟨39, 40⟩, "", "staple horse battery", false, none⟩ 42 1012,
    .commitEnrollment 41 ⟨43, 44, 45, 46, "staple horse battery"⟩ 1013,
    .finish 45 42 none 47 none none 48 1014]

/-- A run of given transactions, with the row, the local account and the past of account 21. -/
def accountAfter (labels : List Label) : Option (Option User × Option LocalAccount × Bool) :=
  (runInputs (next plainCrypto {}) {} labels).map fun r =>
    (r.1.db.users.lookup 21, r.1.db.localAccounts.lookup 21, r.1.factored 21)

theorem run_of_accountAfter {labels : List Label} {user : Option User}
    {account : Option LocalAccount} {factored : Bool}
    (h : accountAfter labels = some (user, account, factored)) :
    ∃ ls p, Run (step plainCrypto {}) {} ls p ∧ p.db.users.lookup 21 = user ∧
      p.db.localAccounts.lookup 21 = account ∧ p.factored 21 = factored := by
  obtain ⟨⟨p, ls⟩, hrun, heq⟩ := Option.map_eq_some_iff.mp h
  simp only [Prod.mk.injEq] at heq
  exact ⟨ls, p, Run.of_runInputs hrun, heq⟩

/-- **An active account without a password, and one without the factor it once had.** -/
theorem factors_lost :
    (∃ ls p user account, Run (step plainCrypto {}) {} ls p ∧
      p.db.users.lookup 21 = some user ∧ user.isLocal = true ∧ user.status = .active ∧
      p.db.localAccounts.lookup 21 = some account ∧ account.passwordHash = none) ∧
    ∃ ls p user account, Run (step plainCrypto {}) {} ls p ∧
      p.db.users.lookup 21 = some user ∧ user.isLocal = true ∧ user.status = .active ∧
      p.db.localAccounts.lookup 21 = some account ∧ p.factored 21 = true ∧
      account.totpConfirmed = false := by
  constructor
  · obtain ⟨ls, p, hrun, huser, haccount, -⟩ := run_of_accountAfter
      (by decide +kernel : accountAfter resetInvitedLabels = some
        (some { isLocal := true, subject := 22, username := "alice", generation := 3 },
          some { totpSecret := some 34, totpConfirmed := true, lastCounter := 34 }, true))
    exact ⟨ls, p, _, _, hrun, huser, rfl, rfl, haccount, rfl⟩
  · obtain ⟨ls, p, hrun, huser, haccount, hfactored⟩ := run_of_accountAfter
      (by decide +kernel : accountAfter resetTwiceLabels = some
        (some { isLocal := true, subject := 22, username := "alice", generation := 5 },
          some { passwordHash := some "staple horse battery" }, true))
    exact ⟨ls, p, _, _, hrun, huser, rfl, rfl, haccount, hfactored, rfl⟩

end Runs
end Portal
end Broker
end OpenstackPlatform
