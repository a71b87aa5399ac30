import OpenstackPlatform.Broker.Revocation

/-!
# The transactions keep the fence of generations

Each transaction of the portal does what `Portal.Does` allows: this is shown label by label from the
outcomes of the transactions, and gives `Revocation` along every run.
-/

namespace OpenstackPlatform
namespace Broker

open Library

namespace Portal

/-- What committing a transaction leaves in the place of what the transaction left: the values it
drew are known, and so are the second factors. -/
structure Commits (p q p' : Portal) (draws : List Nat) : Prop where
  db : p'.db = q.db
  requests : p'.requests = q.requests
  signed : p'.signed = q.signed
  file : p'.file = q.file
  drawn : ∀ n, p'.drawn n = (p.drawn n || draws.contains n)
  factored : ∀ u, p'.factored u = (p.factored u || p'.db.confirmed u)

/-- A step does with credentials what its events say. -/
def Performs (p p' : Portal) (es : List Event) : Prop :=
  ∃ before change after, es = events before change after ∧ Does p p' before change after

section Commits

variable {crypto : Crypto} {settings : Settings} {p q p' : Portal} {es past : List Event}
  {draws : List Nat} {r : Nat}

theorem next_eq_some {l : Label} (h : p.next crypto settings l = some (p', es)) :
    l.draws.Nodup ∧ (∀ n ∈ l.draws, p.drawn n = false) ∧
      ∃ q, p.effect crypto settings l = .ok (q, es) ∧ Commits p q p' l.draws := by
  unfold next at h
  split at h
  next hdraws =>
    simp only [Bool.and_eq_true, decide_eq_true_eq, List.all_eq_true, Bool.not_eq_true'] at hdraws
    refine ⟨hdraws.1, hdraws.2, ?_⟩
    split at h
    next q es' heffect =>
      simp only [Option.some.injEq, Prod.mk.injEq] at h
      obtain ⟨rfl, rfl⟩ := h
      exact ⟨q, heffect, rfl, rfl, rfl, rfl, fun n => rfl, fun u => rfl⟩
    next => cases h
  next => cases h

theorem Commits.keeps (h : Commits p q p' draws) {n : Nat} (hn : p.drawn n = true) :
    p'.drawn n = true := by
  rw [h.drawn, hn, Bool.true_or]

theorem Commits.knows (h : Commits p q p' draws) {n : Nat} (hn : n ∈ draws) :
    p'.drawn n = true := by
  rw [h.drawn, List.contains_iff_mem.mpr hn, Bool.or_true]

/-! ## What is accepted -/

variable {sid : SessionId} {now : Nat} {user : User}

theorem accepts_session {kind : Option Role} {row : Session}
    (h : sessionRow settings p.db sid now kind = .ok (row, user)) :
    p.Accepts (.accepted row.user (.session sid)) := by
  obtain ⟨hrow, huser, hgen, -⟩ := Database.sessionRow_eq_ok h
  refine .inr ⟨row.user, .session sid, row.generation, rfl, ?_, ?_⟩
  · show (p.db.sessions.lookup sid).map _ = _
    rw [hrow, Option.map_some]
  · show (p.db.users.lookup row.user).map _ = _
    rw [huser, Option.map_some, hgen]

variable {device : Option Device} {u : UserId}

theorem accepts_recognized (huser : p.db.users.lookup u = some user) :
    ∀ e ∈ p.recognized device u user now, p.Accepts e := by
  intro e he
  unfold recognized at he
  split at he
  next d =>
    split at he
    next hvalid =>
      obtain rfl := List.mem_singleton.mp he
      simp only [deviceValid, Option.any_some, Bool.and_eq_true, beq_iff_eq] at hvalid
      obtain ⟨⟨⟨⟨⟨-, hsigned⟩, hd⟩, hgen⟩, -⟩, -⟩ := hvalid
      refine .inr ⟨u, .device d, d.generation, rfl, ?_, ?_⟩
      · show (if p.signed d then _ else none) = _
        rw [if_pos hsigned, hd]
      · show (p.db.users.lookup u).map _ = _
        rw [huser, Option.map_some, hgen]
    next => cases he
  next => cases he

theorem accepts_recognizedAccount {username : String} :
    ∀ e ∈ p.recognizedAccount device username now, p.Accepts e := by
  intro e he
  unfold recognizedAccount at he
  split at he
  next u user account haccount =>
    exact accepts_recognized (Database.account_eq_some haccount).1 e he
  next => cases he

/-- A link that is accepted for an account. -/
theorem accepts_link {file : Option BootstrapDocument} {link : Link} {resolved : Resolved}
    (h : resolveToken p.db file link now = some resolved) :
    ∀ e ∈ acceptedLink resolved link.id, p.Accepts e := by
  intro e he
  rcases (Database.resolveToken_eq_some h).2 with ⟨row, a, hrow, ha, hgen, -, -, rfl⟩ | ⟨-, rfl⟩
  · obtain rfl := List.mem_singleton.mp he
    refine .inr ⟨row.user, .link link.id, row.generation, rfl, ?_, ?_⟩
    · show (p.db.accountTokens.lookup link.id).map _ = _
      rw [hrow, Option.map_some]
    · show (p.db.users.lookup row.user).map _ = _
      rw [ha, Option.map_some, hgen]
  · exact absurd he (by simp [acceptedLink])

/-- A verification of the current generation is accepted. -/
theorem accepts_verification {v : Verified} {session : Option SessionId}
    (hrequest : p.requests r = some (.verified v session))
    (huser : p.db.users.lookup v.user = some user) (hgen : user.generation = v.generation) :
    p.Accepts (.accepted v.user (.verification r)) := by
  refine .inr ⟨v.user, .verification r, v.generation, rfl, ?_, ?_⟩
  · simp only [holds, hrequest]
  · show (p.db.users.lookup v.user).map _ = _
    rw [huser, Option.map_some, hgen]

/-! ## Requests -/

theorem turn_setRequest {request : Option Request} (hc : p'.requests = (q.setRequest r request).requests)
    (hq : q.requests = p.requests) {after : List Event} (hturn : Turn p p' after r) :
    ∀ s, Turn p p' after s := by
  intro s
  by_cases hs : s = r
  · rw [hs]
    exact hturn
  · refine .same ?_
    rw [hc, ← hq]
    show (if s = r then _ else _) = _
    rw [if_neg hs]

theorem setRequest_self (q : Portal) (r : Nat) (request : Option Request) :
    (q.setRequest r request).requests r = request := if_pos rfl

theorem turn_same (hc : p'.requests = p.requests) {after : List Event} :
    ∀ s, Turn p p' after s := fun s => .same (by rw [hc])

/-- A step that only accepts. -/
theorem performs_accepts (hc : Commits p q p' draws)
    (hout : p.db.Outcome q.db none Database.nothing) (hsigned : q.signed = p.signed)
    (haccepts : ∀ e ∈ es, p.Accepts e) (hturn : ∀ s, Turn p p' [] s) : Performs p p' es := by
  refine ⟨es, none, [], by simp [events], Does.of Database.nothing ?_ ?_ haccepts ?_
    ⟨0, fun v c h => absurd h (by simp)⟩ (fun n => hc.keeps) ?_ ?_ hturn⟩
  · rw [hc.db]
    exact hout
  · exact fun u c h => h.elim
  · exact fun e he => absurd he (by simp)
  · intro d hd
    rw [hc.signed, hsigned, hd]
  · intro d hd
    rw [hc.signed, hsigned] at hd
    exact .inl hd

/-- A name that was never drawn is no request's. -/
theorem requests_fresh (hinv : Revocation past p) (hfresh : p.drawn r = false) :
    p.requests r = none := by
  cases hrequest : p.requests r with
  | none => rfl
  | some request =>
    have hdrawn := (hinv.requests r request hrequest).2
    rw [hfresh] at hdrawn
    cases hdrawn

/-- A new request, before it has verified anything. -/
theorem turn_opens (hinv : Revocation past p) (hfresh : p.drawn r = false) (request : Request)
    (hrequest : p'.requests r = some request) (hdrawn : p'.drawn r = true)
    (hspeaks : p'.Speaks request) (hopens : ∀ v session, request ≠ .verified v session)
    {after : List Event} : Turn p p' after r := by
  refine .stage request hrequest hspeaks (fun _ => hfresh) hdrawn ?_ ?_
  · intro v session hold
    rw [requests_fresh hinv hfresh] at hold
    cases hold
  · exact fun v session heq => absurd heq (hopens v session)

/-! ## The transactions that only accept -/

theorem performs_issueBootstrap {link : Link} (hc : Commits p q p' draws)
    (h : p.effect crypto settings (.issueBootstrap link now) = .ok (q, es)) :
    Performs p p' es := by
  cases h
  exact performs_accepts hc (Database.outcome_of_users rfl fun c v g h => .inl h) rfl
    (fun e he => absurd he (by simp)) (turn_same (p := p) hc.requests)

theorem performs_openEnrollment (hinv : Revocation past p) {body : EnrollBody} {binder : Nat}
    (hfresh : p.drawn r = false) (hc : Commits p q p' [r])
    (h : p.openEnrollment crypto r body binder now = .ok (q, es)) : Performs p p' es := by
  simp only [openEnrollment, bind_eq_ok, found_eq_ok] at h
  obtain ⟨resolved, hresolved, ⟨db, enrolling⟩, hopen, h⟩ := h
  have hout := Database.outcome_openEnrollment hopen
  have haccepted := accepts_link hresolved
  split at h
  next _ e _ =>
    cases h
    refine performs_accepts hc hout rfl haccepted
      (turn_setRequest (p := p) hc.requests rfl
        (turn_opens hinv hfresh (.enrolling e) ?_ (hc.knows (by simp)) trivial ?_))
    · rw [hc.requests, setRequest_self]
    · exact fun v session heq => absurd heq (by simp)
  next =>
    cases h
    refine performs_accepts hc hout rfl ?_ (turn_same (p := p) hc.requests)
    intro e he
    rcases List.mem_append.mp he with he | he
    · exact haccepted e he
    · obtain rfl := List.mem_singleton.mp he
      exact .inl rfl

theorem performs_recognize {device : Device} (hc : Commits p q p' draws)
    (h : p.effect crypto settings (.recognize u device now) = .ok (q, es)) : Performs p p' es := by
  simp only [effect, Database.target, bind_eq_ok, found_eq_ok, require_eq_ok] at h
  obtain ⟨user, huser, -, -, h⟩ := h
  cases h
  exact performs_accepts hc (Database.outcome_of_users rfl fun c v g h => .inl h) rfl
    (accepts_recognized huser) (turn_same hc.requests)

theorem performs_signIn (hinv : Revocation past p) {username password : String}
    {lockedOut : Bool} (hfresh : p.drawn r = false) (hc : Commits p q p' [r])
    (h : p.effect crypto settings (.signIn r username password device lockedOut now) =
      .ok (q, es)) : Performs p p' es := by
  cases h
  refine performs_accepts hc (Database.outcome_of_users rfl fun c v g h => .inl h) rfl
    accepts_recognizedAccount (turn_setRequest (p := p) hc.requests rfl
      (turn_opens hinv hfresh
        (.verifying (openSignIn p.db username password lockedOut) device none) ?_
        (hc.knows (by simp)) ?_ ?_))
  · rw [hc.requests, setRequest_self]
  · exact fun sid hsid => absurd hsid (by simp)
  · exact fun v session heq => absurd heq (by simp)

/-- The name of the account of a session that an administrator uses. -/
theorem named_of_sessionRow (hinv : Revocation past p) {row : Session}
    (h : sessionRow settings p.db sid now (some .admin) = .ok (row, user)) :
    p.Named sid user.username := by
  obtain ⟨hrow, huser, -, -, -, -, hlocal, hserves⟩ := Database.sessionRow_eq_ok h
  have hholds : p.holds (.session sid) = some (row.user, row.generation) := by
    show (p.db.sessions.lookup sid).map _ = _
    rw [hrow, Option.map_some]
  refine ⟨hinv.keys (.session sid) _ hholds, fun row' hrow' => ?_⟩
  cases hrow.symm.trans hrow'
  exact ⟨user, huser, hlocal (by simpa [Role.serves] using hserves), rfl⟩

theorem performs_stepUp (hinv : Revocation past p) (hfresh : p.drawn r = false)
    (hc : Commits p q p' [r]) (h : p.effect crypto settings (.stepUp r sid now) = .ok (q, es)) :
    Performs p p' es := by
  simp only [effect, bind_eq_ok] at h
  obtain ⟨⟨row, user⟩, hrow, db, hauth, h⟩ := h
  cases h
  have hout := Database.outcome_authenticate hauth
  have haccepts : ∀ e ∈ [Event.accepted row.user (.session sid)], p.Accepts e := by
    intro e he
    obtain rfl := List.mem_singleton.mp he
    exact accepts_session hrow
  refine performs_accepts hc hout rfl haccepts (turn_setRequest (p := p) hc.requests rfl
    (turn_opens hinv hfresh (.stepUp sid user.username) ?_ (hc.knows (by simp)) ?_ ?_))
  · rw [hc.requests, setRequest_self]
  · obtain ⟨hdrawn, hnamed⟩ := named_of_sessionRow hinv hrow
    refine ⟨hc.keeps hdrawn, fun row' hrow' => ?_⟩
    rw [hc.db] at hrow' ⊢
    obtain ⟨hlookup, -⟩ := Database.sessionRow_eq_ok hrow
    have hold := hout.holds (.session sid) row'.user row'.generation (by
      show (db.sessions.lookup sid).map _ = _
      exact (congrArg _ hrow').trans rfl)
    rcases hold with hold | ⟨hfalse, -⟩
    · obtain ⟨row'', hrow'', heq⟩ := Option.map_eq_some_iff.mp hold
      obtain ⟨a, ha, hlocal, hname⟩ := hnamed row'' hrow''
      obtain ⟨a', ha', hsame, -⟩ := hout.user row''.user a ha
      refine ⟨a', ?_, hsame.1.trans hlocal, (hsame.2 hlocal).1.trans hname⟩
      rw [← (Prod.mk.inj heq).1]
      exact ha'
    · exact hfalse.elim
  · exact fun v session heq => absurd heq (by simp)

theorem performs_readStepUp (hinv : Revocation past p) {password : String}
    {lockedOut : Bool} (hc : Commits p q p' draws)
    (h : p.effect crypto settings (.readStepUp r password device lockedOut now) = .ok (q, es)) :
    Performs p p' es := by
  simp only [effect] at h
  split at h
  next sid username hrequest =>
    cases h
    obtain ⟨⟨hnamed, hrow⟩, hdrawn⟩ := hinv.requests r _ hrequest
    refine performs_accepts hc (Database.outcome_of_users rfl fun c v g h => .inl h) rfl
      accepts_recognizedAccount (turn_setRequest (p := p) hc.requests rfl ?_)
    refine .stage (.verifying (openSignIn p.db username password lockedOut) device (some sid)) ?_ ?_
      ?_ (hc.keeps hdrawn) ?_ ?_
    · rw [hc.requests, setRequest_self]
    · intro sid' hsid
      cases hsid
      refine ⟨hc.keeps hnamed, fun row hlookup => ?_⟩
      rw [hc.db] at hlookup ⊢
      exact hrow row hlookup
    · exact fun hnone => absurd (hrequest.symm.trans hnone) (by simp)
    · exact fun v session hold => absurd (hrequest.symm.trans hold) (by simp)
    · exact fun v session heq => absurd heq (by simp)
  next => cases h

theorem performs_authenticate {kind : Option Role} {touch : Bool} (hc : Commits p q p' draws)
    (h : p.effect crypto settings (.authenticate sid kind touch now) = .ok (q, es)) :
    Performs p p' es := by
  simp only [effect, bind_eq_ok] at h
  obtain ⟨⟨row, user⟩, hrow, db, hauth, h⟩ := h
  cases h
  refine performs_accepts hc (Database.outcome_authenticate hauth) rfl ?_
    (turn_same (p := p) hc.requests)
  intro e he
  obtain rfl := List.mem_singleton.mp he
  exact accepts_session hrow

theorem performs_logout (hc : Commits p q p' draws)
    (h : p.effect crypto settings (.logout sid) = .ok (q, es)) : Performs p p' es := by
  cases h
  exact performs_accepts hc (Database.outcome_eraseSession sid) rfl
    (fun e he => absurd he (by simp)) (turn_same (p := p) hc.requests)

theorem performs_rehash (hinv : Revocation past p) {replacement : String}
    (hc : Commits p q p' draws) (h : p.rehash r replacement = .ok (q, es)) : Performs p p' es := by
  unfold rehash at h
  split at h
  next v session hrequest =>
    simp only [bind_eq_ok, require_eq_ok] at h
    obtain ⟨-, -, db, hrehash, h⟩ := h
    cases h
    obtain ⟨hout, u, user, huser, hlocal, hname, hgen⟩ := Database.outcome_rehash hrehash
    obtain ⟨⟨⟨a, ha, halocal, haname, hasubject⟩, hsid⟩, hdrawn⟩ := hinv.requests r _ hrequest
    obtain rfl := hinv.unique u v.user user a huser ha hlocal halocal (.inl (hname.trans haname.symm))
    refine performs_accepts hc hout rfl ?_ (turn_setRequest (p := p) hc.requests rfl
      (.rehashed v session ?_ hrequest ?_ (hc.keeps hdrawn)))
    · intro e he
      obtain rfl := List.mem_singleton.mp he
      exact accepts_verification hrequest huser hgen
    · rw [hc.requests, setRequest_self]
    · obtain ⟨a', ha', hsame, -⟩ := hout.user v.user a ha
      refine ⟨⟨a', ?_, hsame.1.trans halocal, (hsame.2 halocal).1.trans haname,
        (hsame.2 halocal).2.trans hasubject⟩, fun sid heq => ?_⟩
      · rw [hc.db]
        exact ha'
      · obtain ⟨hdrawn', hrow⟩ := hsid sid heq
        refine ⟨hc.keeps hdrawn', fun row hlookup => ?_⟩
        rw [hc.db] at hlookup
        rcases hout.holds (.session sid) row.user row.generation
          ((congrArg (Option.map _) hlookup).trans rfl) with hold | ⟨hfalse, -⟩
        · obtain ⟨row', hrow', heq'⟩ := Option.map_eq_some_iff.mp hold
          rw [← (Prod.mk.inj heq').1]
          exact hrow row' hrow'
        · exact hfalse.elim
  next => cases h

theorem performs_reauthenticate (hinv : Revocation past p) (hc : Commits p q p' draws)
    (h : p.reauthenticate settings r now = .ok (q, es)) : Performs p p' es := by
  unfold reauthenticate at h
  split at h
  next v sid hrequest =>
    simp only [bind_eq_ok, require_eq_ok] at h
    obtain ⟨-, -, ⟨row, user⟩, hrow, db, hreauth, h⟩ := h
    cases h
    obtain ⟨hout, row', user', hrow', hgen⟩ := Database.outcome_reauthenticate hreauth
    cases hrow.symm.trans hrow'
    obtain ⟨hlookup, huser, -⟩ := Database.sessionRow_eq_ok hrow
    obtain ⟨⟨-, hsid⟩, -⟩ := hinv.requests r _ hrequest
    have hsame : row.user = v.user := (hsid sid rfl).2 row hlookup
    refine performs_accepts hc hout rfl ?_ (turn_setRequest (p := p) hc.requests rfl
      (.ends ?_ ?_))
    · intro e he
      rcases List.mem_cons.mp he with rfl | he
      · exact accepts_verification hrequest (hsame ▸ huser) hgen
      · obtain rfl := List.mem_singleton.mp he
        exact accepts_session hrow
    · rw [hc.requests, setRequest_self]
    · rw [hrequest]
      simp
  next => cases h

/-! ## The transactions that issue -/

/-- A credential whose identifier is drawn in this step is new. -/
theorem issues_fresh (hc : Commits p q p' draws) {n : Nat} (hn : n ∈ draws)
    (hfresh : p.drawn n = false) {c : Credential} (u : UserId)
    (hcredential : c = .session n ∨ c = .link n ∨ c = .enrollment n) :
    p.Issues p' (.issued u c) := by
  refine .inr ⟨u, c, rfl, ?_, .inl ⟨?_, ?_⟩⟩
  · rcases hcredential with rfl | rfl | rfl
    all_goals exact hc.knows hn
  · rcases hcredential with rfl | rfl | rfl
    all_goals exact hfresh
  · rintro d rfl
    simp at hcredential

theorem owner_singleton {c : Credential} :
    ∀ v c', Event.issued v c' ∈ [Event.issued u c] → v = u := by
  intro v c' hmem
  exact (Event.issued.inj (List.mem_singleton.mp hmem)).1

/-- A step that issues credentials of the tables only. -/
theorem performs_issues (hc : Commits p q p' draws) {issued : UserId → Credential → Prop}
    (before : List Event) (change : Option UserId) (after : List Event)
    (hout : p.db.Outcome q.db change issued)
    (hissued : ∀ u c, issued u c → Event.issued u c ∈ after) (hsigned : q.signed = p.signed)
    (haccepts : ∀ e ∈ before, p.Accepts e) (hissues : ∀ e ∈ after, p.Issues p' e)
    (howner : ∀ v c, Event.issued v c ∈ after → v = u)
    (hturn : ∀ s, Turn p p' after s) (hes : es = events before change after) :
    Performs p p' es := by
  refine ⟨before, change, after, hes, Does.of issued ?_ hissued haccepts hissues
    ⟨u, howner⟩ (fun n => hc.keeps) ?_ ?_ hturn⟩
  · rw [hc.db]
    exact hout
  · intro d hd
    rw [hc.signed, hsigned, hd]
  · intro d hd
    rw [hc.signed, hsigned] at hd
    exact .inl hd

variable {session : SessionId}

/-- A step that issues a session and the cookie that comes with it. -/
theorem performs_session (hc : Commits p q p' draws) (before : List Event)
    (change : Option UserId) {d : Device} (hsession : session ∈ draws)
    (hfresh : p.drawn session = false)
    (hout : p.db.Outcome q.db change (fun v c => v = u ∧ c = .session session))
    (huser : q.db.users.lookup u = some user) (hd : d.user = u ∧ d.generation = user.generation)
    (hsigned : ∀ e, q.signed e = (e == d || p.signed e)) (haccepts : ∀ e ∈ before, p.Accepts e)
    (hturn : ∀ s, Turn p p' [.issued u (.session session), .issued u (.device d)] s)
    (hes : es = events before change [.issued u (.session session), .issued u (.device d)]) :
    Performs p p' es := by
  have hgen : p'.db.gen u = some d.generation := by
    rw [hc.db]
    show (q.db.users.lookup u).map _ = _
    rw [huser, Option.map_some, hd.2]
  have howner : ∀ v c, Event.issued v c ∈
      [Event.issued u (.session session), .issued u (.device d)] → v = u := by
    intro v c hmem
    simp only [List.mem_cons, List.not_mem_nil, or_false, Event.issued.injEq] at hmem
    rcases hmem with ⟨rfl, -⟩ | ⟨rfl, -⟩
    all_goals rfl
  refine ⟨before, change, _, hes, Does.of (fun v c => v = u ∧ c = .session session) ?_ ?_
    haccepts ?_ ⟨u, howner⟩ (fun n => hc.keeps) ?_ ?_ hturn⟩
  · rw [hc.db]
    exact hout
  · rintro v c ⟨rfl, rfl⟩
    simp
  · intro e he
    simp only [List.mem_cons, List.not_mem_nil, or_false] at he
    rcases he with rfl | rfl
    · exact issues_fresh hc hsession hfresh u (.inl rfl)
    · refine .inr ⟨u, .device d, rfl, ?_, .inr ⟨d, rfl, hd.1, hgen⟩⟩
      show p'.signed d = true
      rw [hc.signed, hsigned, beq_self_eq_true, Bool.true_or]
  · intro e he
    rw [hc.signed, hsigned, he, Bool.or_true]
  · intro e he
    rw [hc.signed, hsigned, Bool.or_eq_true, beq_iff_eq] at he
    rcases he with rfl | he
    · rw [hd.1]
      exact .inr ⟨by simp, hgen⟩
    · exact .inl he

theorem performs_commitEnrollment (hinv : Revocation past p) {draw : EnrollDraw}
    (hfresh : p.drawn draw.handle = false)
    (hc : Commits p q p' [draw.user, draw.subject, draw.handle, draw.secret])
    (h : p.commitEnrollment r draw now = .ok (q, es)) : Performs p p' es := by
  unfold commitEnrollment at h
  split at h
  next e hrequest =>
    simp only [bind_eq_ok, found_eq_ok] at h
    obtain ⟨resolved, hresolved, ⟨mid, u, user⟩, huser, db, hcommit, h⟩ := h
    cases h
    obtain ⟨resolved', mid', u', user', hresolved', huser', hout, -⟩ :=
      Database.outcome_commitEnrollment hcommit
    cases hresolved.symm.trans hresolved'
    simp only [huser, Except.ok.injEq, Prod.mk.injEq] at huser'
    obtain ⟨rfl, rfl, rfl⟩ := huser'
    have hdrawn := (hinv.requests r _ hrequest).2
    refine performs_issues (q := { p with db := db }.setRequest r none) hc
      (acceptedLink resolved e.link.id ++ [.enrolled e.link.id draw.handle]) none
      [.issued u (.enrollment draw.handle)] hout ?_ rfl ?_ ?_ owner_singleton
      (turn_setRequest (p := p) hc.requests rfl (.ends ?_ ?_)) ?_
    · rintro v c ⟨rfl, rfl⟩
      simp
    · intro f hf
      rcases List.mem_append.mp hf with hf | hf
      · exact accepts_link hresolved f hf
      · obtain rfl := List.mem_singleton.mp hf
        exact .inl rfl
    · intro f hf
      obtain rfl := List.mem_singleton.mp hf
      exact issues_fresh hc (by simp) hfresh u (.inr (.inr rfl))
    · rw [hc.requests, setRequest_self]
    · rw [hrequest]
      simp
    · simp [events]
  next => cases h

theorem issueDevice_spec (signed : Device → Bool) (previous : Option Device) (u : UserId)
    (user : User) (fresh now : Nat) :
    (issueDevice signed previous u user fresh now).user = u ∧
      (issueDevice signed previous u user fresh now).generation = user.generation := ⟨rfl, rfl⟩

variable {old : Option SessionId}

theorem performs_finish {handle : Handle} {binder : Nat} {totp : Option String}
     {fresh : Nat} (hfresh : p.drawn session = false) (hc : Commits p q p' [session, fresh])
    (h : p.finish crypto settings handle binder totp session old device fresh now = .ok (q, es)) :
    Performs p p' es := by
  simp only [finish, bind_eq_ok, found_eq_ok] at h
  obtain ⟨row, hrow, ⟨db, finished⟩, hfinish, h⟩ := h
  obtain ⟨row', user, hrow', huser, hgen, -, hout⟩ := Database.outcome_finish hfinish
  cases hrow.symm.trans hrow'
  have haccept : p.Accepts (.accepted row.user (.enrollment handle)) := by
    refine .inr ⟨row.user, .enrollment handle, row.generation, rfl, ?_, ?_⟩
    · show (p.db.enrollments.lookup handle).map _ = _
      rw [hrow, Option.map_some]
    · show (p.db.users.lookup row.user).map _ = _
      rw [huser, Option.map_some, hgen]
  have haccepts : ∀ event, event.neutral = true →
      ∀ e ∈ [.accepted row.user (.enrollment handle), event], p.Accepts e := by
    intro event hneutral e he
    rcases List.mem_cons.mp he with rfl | he
    · exact haccept
    · obtain rfl := List.mem_singleton.mp he
      exact .inl hneutral
  cases finished with
  | wrongCode =>
    cases h
    exact performs_accepts hc hout.1 rfl (haccepts (.wrongEnrollmentCode handle) rfl)
      (turn_same (p := p) hc.requests)
  | signIn =>
    cases h
    exact performs_issues hc [.accepted row.user (.enrollment handle), .completed handle]
      (some row.user) [] hout.1 (fun u c h => h.elim) rfl
      (haccepts (.completed handle) rfl) (fun e he => absurd he (by simp)) (u := row.user)
      (fun v c h => absurd h (by simp)) (turn_same (p := p) hc.requests) rfl
  | session =>
    simp only [bind_eq_ok, Database.target, found_eq_ok] at h
    obtain ⟨latest, hlatest, h⟩ := h
    cases h
    refine performs_session hc [.accepted row.user (.enrollment handle), .completed handle]
      (some row.user) (u := row.user) (by simp) hfresh hout.1 hlatest
      (issueDevice_spec p.signed device row.user latest fresh now) (fun e => rfl)
      (haccepts (.completed handle) rfl) (turn_same (p := p) hc.requests) rfl

theorem performs_verify (hinv : Revocation past p) {code : Option String} {lockedOut : Bool}
    (hc : Commits p q p' draws) (h : p.verify crypto r code lockedOut now = .ok (q, es)) :
    Performs p p' es := by
  unfold verify at h
  split at h
  next v device session hrequest =>
    simp only [bind_eq_ok] at h
    obtain ⟨⟨db, verified⟩, hverify, h⟩ := h
    cases h
    obtain ⟨hout, husers, user, huser, hlocal, hvname, hname, hsubject, hgen⟩ :=
      Database.outcome_verifySignIn hverify
    obtain ⟨hnamed, hdrawn⟩ := hinv.requests r _ hrequest
    have hnew : (p'.requests r = some (.verified verified session)) := by
      rw [hc.requests, setRequest_self]
    have hspeaks : p'.Speaks (.verified verified session) := by
      refine ⟨⟨user, ?_, hlocal, hname, hsubject⟩, fun sid hsid => ?_⟩
      · rw [hc.db]
        exact (congrArg _ husers).trans huser
      · obtain ⟨hsdrawn, hrow⟩ := hnamed sid hsid
        refine ⟨hc.keeps hsdrawn, fun row hlookup => ?_⟩
        rw [hc.db] at hlookup
        rcases hout.holds (.session sid) row.user row.generation
          ((congrArg (Option.map _) hlookup).trans rfl) with hold | ⟨hfalse, -⟩
        · obtain ⟨row', hrow', heq⟩ := Option.map_eq_some_iff.mp hold
          obtain ⟨a, ha, halocal, haname⟩ := hrow row' hrow'
          rw [← (Prod.mk.inj heq).1]
          exact hinv.unique _ _ a user ha huser halocal hlocal (.inl (haname.trans hvname.symm))
        · exact hfalse.elim
    refine performs_issues hc (p.recognizedAccount device v.username now) none
      [.issued verified.user (.verification r)] hout
      (fun u c h => h.elim) rfl accepts_recognizedAccount ?_ owner_singleton
      (turn_setRequest (p := p) hc.requests rfl (.stage _ hnew hspeaks ?_ (hc.keeps hdrawn) ?_ ?_))
      ?_
    · intro e he
      obtain rfl := List.mem_singleton.mp he
      refine .inr ⟨_, _, rfl, ?_, .inl ⟨?_, fun d hd => absurd hd (by simp)⟩⟩
      · show (p'.drawn r && _) = true
        rw [hc.keeps hdrawn, hnew]
        rfl
      · show (p.drawn r && _) = false
        rw [hrequest, Bool.and_false]
    · exact fun hnone => absurd (hrequest.symm.trans hnone) (by simp)
    · exact fun v session hold => absurd (hrequest.symm.trans hold) (by simp)
    · intro v' session' heq
      obtain ⟨rfl, rfl⟩ := Request.verified.inj heq
      refine ⟨by simp, ?_⟩
      rw [hc.db]
      show (db.users.lookup verified.user).map _ = _
      rw [husers, huser, Option.map_some, hgen]
    · simp [events]
  next => cases h

theorem performs_login (hinv : Revocation past p) {fresh : Nat} (hfresh : p.drawn session = false)
    (hc : Commits p q p' [session, fresh])
    (h : p.login settings r session old device fresh now = .ok (q, es)) : Performs p p' es := by
  unfold login at h
  split at h
  next v hrequest =>
    simp only [bind_eq_ok, require_eq_ok] at h
    obtain ⟨-, -, ⟨db, u, user⟩, hlogin, h⟩ := h
    cases h
    obtain ⟨hout, huser, husers, hlocal, hsubject, hgen⟩ := Database.outcome_login hlogin
    obtain ⟨⟨⟨a, ha, halocal, -, hasubject⟩, -⟩, -⟩ := hinv.requests r _ hrequest
    obtain rfl := hinv.unique u v.user user a huser ha hlocal halocal
      (.inr (hsubject.trans hasubject.symm))
    refine performs_session hc
      (.accepted v.user (.verification r) :: p.recognized device v.user user now) none
      (u := v.user) (by simp) hfresh hout ?_
      (issueDevice_spec p.signed device v.user user fresh now) (fun e => rfl) ?_
      (turn_setRequest (p := p) hc.requests rfl (.ends ?_ ?_)) ?_
    · exact (congrArg _ husers).trans huser
    · intro e he
      rcases List.mem_cons.mp he with rfl | he
      · exact accepts_verification hrequest huser hgen
      · exact accepts_recognized huser e he
    · rw [hc.requests, setRequest_self]
    · rw [hrequest]
      simp
    · simp [events, issueSession]
  next => cases h

theorem performs_create {name : String} {role : Role} {draw : LinkDraw}
    (hfresh : p.drawn draw.link.id = false)
    (hc : Commits p q p' [draw.user, draw.subject, draw.link.id, draw.link.token])
    (h : p.effect crypto settings (.create sid name role draw now) = .ok (q, es)) :
    Performs p p' es := by
  simp only [effect, bind_eq_ok] at h
  obtain ⟨⟨row, user⟩, hrow, db, hcreate, h⟩ := h
  cases h
  refine performs_issues (q := { p with db := db }) hc [.accepted row.user (.session sid)] none
    [.issued draw.user (.link draw.link.id)] (Database.outcome_create hcreate) ?_ rfl ?_ ?_
    owner_singleton (turn_same (p := p) hc.requests) rfl
  · rintro u c ⟨rfl, rfl⟩
    simp
  · intro e he
    obtain rfl := List.mem_singleton.mp he
    exact accepts_session (Database.checkedActor_eq_ok hrow)
  · intro e he
    obtain rfl := List.mem_singleton.mp he
    exact issues_fresh hc (by simp) hfresh draw.user (.inr (.inl rfl))

theorem performs_change {action : Action} {link : Link} (hfresh : p.drawn link.id = false)
    (hc : Commits p q p' [link.id, link.token])
    (h : p.effect crypto settings (.change sid u action link now) = .ok (q, es)) :
    Performs p p' es := by
  simp only [effect, bind_eq_ok] at h
  obtain ⟨⟨row, user⟩, hrow, db, hchange, h⟩ := h
  cases h
  have hout := Database.outcome_change hchange
  -- A link counts as issued only where its row is there.
  have hlink : p.db.Outcome db (some u) fun v c =>
      v = u ∧ c = .link link.id ∧ (db.accountTokens.lookup link.id).isSome = true := by
    refine ⟨hout.user, hout.added, fun c v g hholds => ?_⟩
    rcases hout.holds c v g hholds with hold | ⟨⟨rfl, rfl⟩, hgen⟩
    · exact .inl hold
    · obtain ⟨token, htoken, -⟩ := Option.map_eq_some_iff.mp hholds
      exact .inr ⟨⟨rfl, rfl, by rw [htoken]; rfl⟩, hgen⟩
  refine performs_issues (q := { p with db := db }) hc [.accepted row.user (.session sid)] (some u)
    (if (db.accountTokens.lookup link.id).isSome then [.issued u (.link link.id)] else []) hlink ?_
    rfl ?_ ?_ (u := u) ?_ (turn_same (p := p) hc.requests) rfl
  · rintro v c ⟨rfl, rfl, hsome⟩
    rw [if_pos hsome]
    simp
  · intro e he
    obtain rfl := List.mem_singleton.mp he
    exact accepts_session (Database.checkedActor_eq_ok hrow)
  · intro e he
    split at he
    · obtain rfl := List.mem_singleton.mp he
      exact issues_fresh hc (by simp) hfresh u (.inr (.inl rfl))
    · cases he
  · intro v c hmem
    split at hmem
    · exact owner_singleton v c hmem
    · cases hmem

theorem performs_commons {subject : Nat} {username : String} {fresh : UserId}
     (hfresh : p.drawn session = false) (hc : Commits p q p' [fresh, session])
    (h : p.effect crypto settings (.commons subject username fresh session old now) =
      .ok (q, es)) : Performs p p' es := by
  simp only [effect, bind_eq_ok] at h
  obtain ⟨db, hcommons, h⟩ := h
  cases h
  obtain ⟨u, hout, row, hrow, rfl⟩ := Database.outcome_commonsCallback hcommons
  rw [hrow]
  refine performs_issues (q := { p with db := db }) hc [] none [.issued row.user (.session session)]
    hout ?_ rfl (fun e he => absurd he (by simp)) ?_ owner_singleton
    (turn_same (p := p) hc.requests) rfl
  · rintro v c ⟨rfl, rfl⟩
    simp
  · intro e he
    obtain rfl := List.mem_singleton.mp he
    exact issues_fresh hc (by simp) hfresh row.user (.inl rfl)

/-! ## Every run -/

/-- **Every step does with credentials only what `Does` allows.** -/
theorem step_performs (hinv : Revocation past p) {l : Label} (h : step crypto settings p (l, es) p') :
    Performs p p' es := by
  obtain ⟨-, hfresh, q, heffect, hc⟩ := next_eq_some h
  cases l with
  | issueBootstrap link now => exact performs_issueBootstrap hc heffect
  | openEnrollment r body binder now =>
    exact performs_openEnrollment hinv (hfresh r (by simp [Label.draws])) hc heffect
  | commitEnrollment r draw now =>
    exact performs_commitEnrollment hinv (hfresh draw.handle (by simp [Label.draws])) hc heffect
  | finish handle binder totp session old device fresh now =>
    exact performs_finish (hfresh session (by simp [Label.draws])) hc heffect
  | recognize u device now => exact performs_recognize hc heffect
  | signIn r username password device lockedOut now =>
    exact performs_signIn hinv (hfresh r (by simp [Label.draws])) hc heffect
  | stepUp r sid now => exact performs_stepUp hinv (hfresh r (by simp [Label.draws])) hc heffect
  | readStepUp r password device lockedOut now => exact performs_readStepUp hinv hc heffect
  | verify r code lockedOut now => exact performs_verify hinv hc heffect
  | rehash r replacement => exact performs_rehash hinv hc heffect
  | login r session old device fresh now =>
    exact performs_login hinv (hfresh session (by simp [Label.draws])) hc heffect
  | reauthenticate r now => exact performs_reauthenticate hinv hc heffect
  | authenticate sid kind touch now => exact performs_authenticate hc heffect
  | logout sid => exact performs_logout hc heffect
  | create sid name role draw now =>
    exact performs_create (hfresh draw.link.id (by simp [Label.draws])) hc heffect
  | change sid u action link now =>
    exact performs_change (hfresh link.id (by simp [Label.draws])) hc heffect
  | commons subject username fresh session old now =>
    exact performs_commons (hfresh session (by simp [Label.draws])) hc heffect

/-- The events of a run, in order. -/
def history (ls : List (Label × List Event)) : List Event := ls.flatMap Prod.snd

theorem history_snoc (ls : List (Label × List Event)) (l : Label × List Event) :
    history (ls ++ [l]) = history ls ++ l.2 := by
  simp [history]

theorem holds_init (c : Credential) : holds {} c = none := by
  cases c with
  | session sid => rfl
  | link id => rfl
  | enrollment handle => rfl
  | device d => rfl
  | verification r => rfl

theorem revocation_init : Revocation [] {} where
  unique u v a b ha := absurd ha (by simp)
  requests r request h := absurd h (by simp)
  keys c e h := absurd h (by simp [holds_init])
  held c u g h := absurd h (by simp [holds_init])
  issued u c h := absurd h (by simp)
  traced c u g h := absurd h (by simp [holds_init])
  owner u v c h := absurd h (by simp)
  device u d h := absurd h (by simp)
  safe v c := Trace.atEach_nil _ _

end Commits
end Portal
end Broker
end OpenstackPlatform
