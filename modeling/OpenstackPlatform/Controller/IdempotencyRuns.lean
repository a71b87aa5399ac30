import OpenstackPlatform.Controller.IdempotencyKeys

/-!
# What a key keeps

Every transaction of the controller grows the database: a request keeps its fingerprint and the ID
of its result, and no row of an operation, a dispatch, a deployment attempt or an application goes
away (`Grows`).  The steps made for a key insert rows of that key only (`OnlyFor`).  From the two, in
every run each key owns at most one row of each kind, whatever the order of the steps and whenever
the process stops.

A handler that has claimed its key goes on in later steps, while others work; what it knows of the
key (`Bound`) must outlive their steps, and it does because all of them grow the database.

* `Grows`, `Call.grows`, `Transaction.grows`: nothing that a key owns goes away.
* `OnlyFor`, `Transaction.onlyFor`: what is written for a key is about that key.
* `Bound`, `ApiRequest.bound_advance`: what a handler past its claim knows of its key.
* `keys_bound`: the main result.
-/

namespace OpenstackPlatform
namespace Controller

open Library Validation

/-! ## The rows of a key -/

namespace Database

variable {db db' : Database}

/-- A key owns a row of a table. -/
def Owns (db : Database) : RowKind → OperationId → Prop
  | .operation, key => (db.getOperation key).isSome
  | .dispatch, key => (db.getDispatch key).isSome
  | .deployment, key => ∃ id row, db.attempts.lookup id = some row ∧ row.idempotencyRequestId = key
  | .application, key => (db.applications.lookup key).isSome

theorem mem_keys_iff {ρ : Type} {t : Table String ρ} {key : String} :
    key ∈ t.keys ↔ (t.lookup key).isSome := by
  rw [← AList.mem_keys, AList.lookup_isSome]

theorem mem_keysOf {kind : RowKind} {key : OperationId} :
    key ∈ db.keysOf kind ↔ db.Owns kind key := by
  cases kind with
  | operation => exact mem_keys_iff
  | dispatch => exact mem_keys_iff
  | application => exact mem_keys_iff
  | deployment =>
    rw [keysOf, Table.indexed, List.mem_filterMap, Owns]
    constructor
    · rintro ⟨⟨id, row⟩, hmem, hrow⟩
      exact ⟨id, row, Table.lookup_eq_some_iff.mpr hmem, Option.some.inj hrow⟩
    · rintro ⟨id, row, hrow, hkey⟩
      exact ⟨⟨id, row⟩, Table.lookup_eq_some_iff.mp hrow, congrArg some hkey⟩

/-- A table has one row under a key. -/
theorem nodup_keysOf (db : Database) (kind : RowKind) : (db.keysOf kind).Nodup := by
  cases kind with
  | operation => exact AList.keys_nodup _
  | dispatch => exact AList.keys_nodup _
  | application => exact AList.keys_nodup _
  | deployment => exact db.one_attempt_per_request

end Database

/-- A request keeps its fingerprint, and the ID of its result once it has one. -/
structure IdempotencyRequest.Keeps (request request' : IdempotencyRequest) : Prop where
  fingerprint : request'.requestFingerprint = request.requestFingerprint
  result : ∀ id, request.resultId = some id → request'.resultId = some id

namespace IdempotencyRequest.Keeps

theorem refl (request : IdempotencyRequest) : request.Keeps request := ⟨rfl, fun _ h => h⟩

theorem trans {r₁ r₂ r₃ : IdempotencyRequest} (h : r₁.Keeps r₂) (h' : r₂.Keeps r₃) :
    r₁.Keeps r₃ :=
  ⟨h'.fingerprint.trans h.fingerprint, fun id hid => h'.result id (h.result id hid)⟩

end IdempotencyRequest.Keeps

/-- What every transaction leaves: the requests keep what they have, and every key keeps its
rows. -/
structure Grows (db db' : Database) : Prop where
  requests : ∀ key request, db.getRequest key = some request →
    ∃ request', db'.getRequest key = some request' ∧ request.Keeps request'
  rows : ∀ kind key, db.Owns kind key → db'.Owns kind key

namespace Grows

variable {db db₁ db' : Database}

theorem refl (db : Database) : Grows db db :=
  ⟨fun _ request h => ⟨request, h, .refl request⟩, fun _ _ h => h⟩

theorem trans (h : Grows db db₁) (h' : Grows db₁ db') : Grows db db' := by
  constructor
  · intro key request hrequest
    obtain ⟨r₁, hr₁, hkeeps⟩ := h.requests key request hrequest
    obtain ⟨r', hr', hkeeps'⟩ := h'.requests key r₁ hr₁
    exact ⟨r', hr', hkeeps.trans hkeeps'⟩
  · intro kind key hkey
    exact h'.rows kind key (h.rows kind key hkey)

theorem isSome_of_put {ρ : Type} {x : Option ρ} {r : ρ} {key id : String} (h : x.isSome) :
    (if key = id then some r else x).isSome := by
  by_cases hk : key = id
  · rw [if_pos hk]
    rfl
  · rwa [if_neg hk]

variable {id : OperationId}

theorem putOperation {o : Operation} (h : db.putOperation id o = .ok db') : Grows db db' := by
  obtain ⟨hrequests, hdispatches, happlications, -, -, -, hattempts, -⟩ :=
    Database.same_putOperation h
  constructor
  · intro key request hrequest
    refine ⟨request, ?_, .refl request⟩
    rwa [Database.getRequest, hrequests]
  · intro kind key howns
    cases kind with
    | operation =>
      rw [Database.Owns, Database.getOperation_put h]
      exact isSome_of_put howns
    | dispatch => rwa [Database.Owns, Database.getDispatch, hdispatches]
    | deployment => rwa [Database.Owns, hattempts]
    | application => rwa [Database.Owns, happlications]

theorem putDispatch {d : OperationDispatch} (h : db.putDispatch id d = .ok db') : Grows db db' := by
  obtain ⟨hrequests, hoperations, happlications, -, -, -, hattempts, -⟩ :=
    Database.same_putDispatch h
  constructor
  · intro key request hrequest
    refine ⟨request, ?_, .refl request⟩
    rwa [Database.getRequest, hrequests]
  · intro kind key howns
    cases kind with
    | operation => rwa [Database.Owns, Database.getOperation, hoperations]
    | dispatch =>
      rw [Database.Owns, Database.getDispatch_put h]
      exact isSome_of_put howns
    | deployment => rwa [Database.Owns, hattempts]
    | application => rwa [Database.Owns, happlications]

/-- A write of an attempt that is new, or keeps the request it was created for. -/
theorem putAttempt {row : DeploymentAttempt} (h : db.putAttempt id row = .ok db')
    (hold : ∀ old, db.attempts.lookup id = some old →
      row.idempotencyRequestId = old.idempotencyRequestId) : Grows db db' := by
  obtain ⟨-, -, -, rfl⟩ := Database.putAttempt_eq_ok.mp h
  refine ⟨fun _ request hrequest => ⟨request, hrequest, .refl request⟩, ?_⟩
  intro kind key howns
  cases kind with
  | operation => exact howns
  | dispatch => exact howns
  | application => exact howns
  | deployment =>
    obtain ⟨k, old, hlookup, rfl⟩ := howns
    by_cases hk : k = id
    · subst hk
      refine ⟨k, row, ?_, hold old hlookup⟩
      rw [Table.lookup_insert_ite, if_pos rfl]
    · refine ⟨k, old, ?_, rfl⟩
      rwa [Table.lookup_insert_ite, if_neg hk]

/-- A write of a request that is new, or keeps what it has. -/
theorem putRequest {request : IdempotencyRequest}
    (hold : ∀ old, db.getRequest id = some old → old.Keeps request) :
    Grows db (db.putRequest id request) := by
  constructor
  · intro key old hrequest
    rw [Database.getRequest_put]
    by_cases hk : key = id
    · rw [if_pos hk]
      exact ⟨request, rfl, hold old (hk ▸ hrequest)⟩
    · rw [if_neg hk]
      exact ⟨old, hrequest, .refl old⟩
  · intro kind key howns
    cases kind <;> exact howns

/-- The first result of a request. -/
theorem putResult {request : IdempotencyRequest} {kind resultId : String}
    (hrequest : db.getRequest id = some request)
    (hresult : request.resultId = none ∨ request.resultId = some resultId) :
    Grows db (db.putRequest id
      { request with resultKind := some kind, resultId := some resultId }) := by
  refine putRequest fun old hold => ?_
  cases hold.symm.trans hrequest
  refine ⟨rfl, fun r hr => ?_⟩
  obtain hnone | hsome := hresult
  · rw [hnone] at hr
    cases hr
  · rw [← hr, hsome]

end Grows

/-! ## The journal -/

variable {now : Timestamp} {request : IdempotencyRequest}

/-- A dispatch is created for a request without a result. -/
theorem result_of_enqueue {id kind scope : String} {db db' : Database}
    (h : enqueueOperationDispatch id kind scope now db = .ok (true, db'))
    (hrequest : db.getRequest id = some request) : request.resultId = none := by
  rw [enqueueOperationDispatch] at h
  simp only [check_bind_eq_ok] at h
  obtain ⟨-, -, -, h⟩ := h
  split at h
  · obtain ⟨-, h⟩ := check_bind_eq_ok.mp h
    obtain ⟨hcreated, -⟩ := Prod.mk.inj (Except.ok.inj h)
    cases hcreated
  · rw [hrequest] at h
    by_cases hsome : request.resultId.isSome = true
    · simp only [if_pos hsome] at h
      obtain ⟨-, h⟩ := check_bind_eq_ok.mp h
      cases h
    · exact Option.not_isSome_iff_eq_none.mp hsome

theorem grows_enqueue {id kind scope : String} {created : Bool} {db db' : Database}
    (h : enqueueOperationDispatch id kind scope now db = .ok (created, db')) :
    Grows db db' ∧ db'.attempts = db.attempts := by
  obtain ⟨-, rfl, -⟩ | ⟨rfl, -, -, -, -, -, -, -, request, db₁, hrequest, hput, rfl⟩ :=
    enqueueOperationDispatch_ok h
  · exact ⟨.refl _, rfl⟩
  · refine ⟨(Grows.putDispatch hput).trans (Grows.putResult (?_ : _ = some request) (.inl ?_)), ?_⟩
    · rw [(Database.same_putDispatch hput).getRequest, hrequest]
    · exact result_of_enqueue h hrequest
    · exact (Database.same_putDispatch hput).attempts

/-- A write of one operation grows the database and leaves the attempts alone. -/
theorem grows_of_put {id : OperationId} {o : Operation} {db db' : Database}
    (h : db.putOperation id o = .ok db') : Grows db db' ∧ db'.attempts = db.attempts :=
  ⟨.putOperation h, (Database.same_putOperation h).attempts⟩

theorem grows_finish {id : OperationId} {status : OperationStatus}
    {phase cleanupState : Option String} {db db' : Database}
    (h : finishOperation id status phase cleanupState db = .ok db') :
    Grows db db' ∧ db'.attempts = db.attempts := by
  obtain ⟨o, -, -, hput⟩ := finishOperation_ok h
  exact grows_of_put hput

/-- **Every call of the journal grows the database**, and leaves the attempts alone. -/
theorem Call.grows (call : Call) {db db' : Database} (h : call.run db = .ok db') :
    Grows db db' ∧ db'.attempts = db.attempts := by
  cases call with
  | claimIdempotencyRequest id fp =>
    obtain rfl | ⟨hnone, rfl⟩ := claimIdempotencyRequest_ok h
    · exact ⟨.refl _, rfl⟩
    · refine ⟨.putRequest fun old hold => ?_, rfl⟩
      cases hnone.symm.trans hold
  | enqueueOperationDispatch id kind scope now =>
    obtain ⟨created, h⟩ := enqueue_of_run h
    exact grows_enqueue h
  | requeueRecoveryDispatch id kind scope automatic now =>
    obtain ⟨d, o, -, -, -, ⟨-, retry, db₁, -, hput, hput'⟩ | ⟨-, hput'⟩⟩ :=
      requeueRecoveryDispatch_ok h
    · have hattempts := (Database.same_putDispatch hput').attempts
      exact ⟨(Grows.putOperation hput).trans (.putDispatch hput'),
        hattempts.trans (Database.same_putOperation hput).attempts⟩
    · exact ⟨.putDispatch hput', (Database.same_putDispatch hput').attempts⟩
  | setOperationDispatchStatus id status now =>
    obtain ⟨d, -, hput⟩ := setOperationDispatchStatus_ok h
    exact ⟨.putDispatch hput, (Database.same_putDispatch hput).attempts⟩
  | beginOperation r =>
    obtain ⟨-, -, -, -, hput⟩ := beginOperation_ok h
    exact grows_of_put hput
  | renewOperationDeadline id deadlineAt =>
    obtain ⟨o, -, -, hput⟩ := renewOperationDeadline_ok h
    exact grows_of_put hput
  | checkpointOperation id c =>
    obtain ⟨o, -, -, hput⟩ := checkpointOperation_ok h
    exact grows_of_put hput
  | markOperationFinishing id =>
    obtain ⟨o, db₁, -, -, hput, ⟨d, -, hput'⟩ | ⟨-, rfl⟩⟩ := markOperationFinishing_ok h
    · have hattempts := (Database.same_putDispatch hput').attempts
      exact ⟨(Grows.putOperation hput).trans (.putDispatch hput'),
        hattempts.trans (Database.same_putOperation hput).attempts⟩
    · exact grows_of_put hput
  | markRecoveryRequired id phase => exact grows_finish h
  | recordFinishingFailure id =>
    obtain ⟨o, -, -, -, hput⟩ := recordFinishingFailure_ok h
    exact grows_of_put hput
  | markSucceeded id cleanup => exact grows_finish h
  | markFailed id cleanup => exact grows_finish (markFailed_ok h)
  | schedule id now =>
    obtain rfl | ⟨o, -, -, -, hput⟩ := schedule_ok h
    · exact ⟨.refl _, rfl⟩
    · exact grows_of_put hput
  | putApplication id a =>
    cases h
    refine ⟨⟨fun _ request hrequest => ⟨request, hrequest, .refl request⟩, ?_⟩, rfl⟩
    intro kind key howns
    cases kind with
    | application =>
      rw [Database.Owns, Table.lookup_insert_ite]
      exact Grows.isSome_of_put howns
    | operation => exact howns
    | dispatch => exact howns
    | deployment => exact howns
  | retireSlug slug id =>
    cases h
    refine ⟨⟨fun _ request hrequest => ⟨request, hrequest, .refl request⟩, ?_⟩, rfl⟩
    intro kind key howns
    cases kind <;> exact howns

/-! ## The other writers -/

variable {requestId : String}

/-- A completion records the first result, or finds the same one. -/
theorem completeIdempotencyRequest_ok {resultKind resultId : String} {db db' : Database}
    (h : completeIdempotencyRequest requestId resultKind resultId db = .ok db') :
    db' = db ∨ ∃ request, db.getRequest requestId = some request ∧ request.resultId = none ∧
      db' = db.putRequest requestId
        { request with resultKind := some resultKind, resultId := some resultId } := by
  rw [completeIdempotencyRequest] at h
  simp only [check_bind_eq_ok] at h
  obtain ⟨-, -, -, h⟩ := h
  cases hrequest : db.getRequest requestId with
  | none =>
    rw [hrequest] at h
    cases h
  | some request =>
    rw [hrequest] at h
    by_cases hsome : request.resultId.isSome = true
    · simp only [if_pos hsome] at h
      obtain ⟨-, h⟩ := check_bind_eq_ok.mp h
      exact .inl (Except.ok.inj h).symm
    · simp only [if_neg hsome] at h
      exact .inr ⟨request, rfl, Option.not_isSome_iff_eq_none.mp hsome, (Except.ok.inj h).symm⟩

theorem grows_complete {resultKind resultId : String} {db db' : Database}
    (h : completeIdempotencyRequest requestId resultKind resultId db = .ok db') :
    Grows db db' := by
  obtain rfl | ⟨request, hrequest, hnone, rfl⟩ := completeIdempotencyRequest_ok h
  · exact .refl _
  · exact .putResult hrequest (.inl hnone)

variable {sha256 : Text → String}

/-- An attempt is created for a request without a result, or whose result has the attempt's ID. -/
theorem CreateAttempt.result_of_earlier {r : CreateAttempt} {db : Database}
    (h : r.earlierResult sha256 request db = .ok none) :
    request.resultId = none ∨ request.resultId = some r.deploymentId := by
  rw [CreateAttempt.earlierResult] at h
  by_cases hsome : request.resultId.isSome = true
  · rw [if_pos hsome] at h
    obtain ⟨haccepted, -⟩ := check_bind_eq_ok.mp h
    have haccepted := Bool.and_eq_true_iff.mp (require_eq_ok.mp haccepted)
    exact .inr (beq_iff_eq.mp haccepted.1)
  · exact .inl (Option.not_isSome_iff_eq_none.mp hsome)

/-- The database after `create_deployment_attempt` is the one before, or has one new attempt. -/
theorem database_of_createDeploymentAttempt (sha256 : Text → String) (r : CreateAttempt)
    (now : Timestamp) (db : Database) :
    (createDeploymentAttempt sha256 r now db).1 = db ∨
      insertDeploymentAttempt sha256 r now db =
        .ok (.inr (createDeploymentAttempt sha256 r now db).1) := by
  rw [createDeploymentAttempt]
  cases hinsert : insertDeploymentAttempt sha256 r now db with
  | error e => exact .inl rfl
  | ok found =>
    cases found with
    | inl attempt => exact .inl rfl
    | inr db' => exact .inr rfl

theorem grows_insertAttempt {r : CreateAttempt} {db db' : Database}
    (h : insertDeploymentAttempt sha256 r now db = .ok (.inr db')) : Grows db db' := by
  obtain ⟨-, request, hrequest, hearlier, hinsert⟩ := insertDeploymentAttempt_ok h
  obtain ⟨hnone, db₁, hput, rfl⟩ := CreateAttempt.insert_ok hinsert
  refine (Grows.putAttempt hput fun old hold => ?_).trans (Grows.putResult ?_
    (CreateAttempt.result_of_earlier hearlier))
  · cases hnone.symm.trans hold
  · obtain ⟨-, -, -, rfl⟩ := Database.putAttempt_eq_ok.mp hput
    exact hrequest

/-- An attempt is updated where it is, with its request. -/
theorem updateDeploymentAttempt_ok {id : OperationId}
    {update : DeploymentAttempt → DeploymentAttempt} {db db' : Database}
    (h : updateDeploymentAttempt id update db = .ok db') :
    ∃ row, db.attempts.lookup id = some row ∧
      db.putAttempt id { update row with idempotencyRequestId := row.idempotencyRequestId } =
        .ok db' := by
  rw [updateDeploymentAttempt] at h
  split at h
  · cases h
  · rename_i row hrow
    exact ⟨row, hrow, h⟩

/-- **Every transaction grows the database.** -/
theorem Transaction.grows (sha256 : Text → String) (t : Transaction) {db db' : Database}
    (h : t.run sha256 db = .ok db') : Grows db db' := by
  cases t with
  | journal call => exact (call.grows h).1
  | complete requestId resultKind resultId => exact grows_complete h
  | createAttempt r now =>
    cases h
    obtain hsame | hinsert := database_of_createDeploymentAttempt sha256 r now db
    · rw [hsame]
      exact .refl db
    · exact grows_insertAttempt hinsert
  | updateAttempt id update =>
    obtain ⟨row, hrow, hput⟩ := updateDeploymentAttempt_ok h
    refine .putAttempt hput fun old hold => ?_
    cases hrow.symm.trans hold
    rfl

/-! ## What a step inserts -/

/-- The rows of the later database are those of the earlier one, and rows of one key. -/
def OnlyFor (key : OperationId) (db db' : Database) : Prop :=
  ∀ kind k, db'.Owns kind k → db.Owns kind k ∨ k = key

namespace OnlyFor

variable {key : OperationId} {db db' : Database}

theorem refl (key : OperationId) (db : Database) : OnlyFor key db db := fun _ _ h => .inl h

theorem putRequest (key id : OperationId) (request : IdempotencyRequest) :
    OnlyFor key db (db.putRequest id request) := by
  intro kind k howns
  cases kind <;> exact .inl howns

/-- A write of an attempt of the key, or of one that was there with the same request. -/
theorem putAttempt {id : OperationId} {row : DeploymentAttempt}
    (h : db.putAttempt id row = .ok db')
    (hrow : row.idempotencyRequestId = key ∨ ∃ old, db.attempts.lookup id = some old ∧
      row.idempotencyRequestId = old.idempotencyRequestId) : OnlyFor key db db' := by
  obtain ⟨-, -, -, rfl⟩ := Database.putAttempt_eq_ok.mp h
  intro kind k howns
  cases kind with
  | operation => exact .inl howns
  | dispatch => exact .inl howns
  | application => exact .inl howns
  | deployment =>
    obtain ⟨i, found, hlookup, rfl⟩ := howns
    rw [Table.lookup_insert_ite] at hlookup
    split at hlookup
    · cases hlookup
      obtain hkey | ⟨old, hold, hsame⟩ := hrow
      · exact .inr hkey
      · exact .inl ⟨id, old, hold, hsame.symm⟩
    · exact .inl ⟨i, found, hlookup, rfl⟩

end OnlyFor

/-- A call about an operation inserts rows of that operation's key only. -/
theorem Call.onlyFor (call : Call) {db db' : Database} (h : call.run db = .ok db')
    {key : OperationId} (htarget : call.target = some key) : OnlyFor key db db' := by
  intro kind k howns
  by_cases hk : k = key
  · exact .inr hk
  have hrows := call.frame h (k := k) (by rw [htarget]; simpa using Ne.symm hk)
  have happlications := (call.applications_of_run h htarget).1
  left
  cases kind with
  | operation => rwa [Database.Owns, ← hrows.2]
  | dispatch => rwa [Database.Owns, ← hrows.1]
  | deployment => rwa [Database.Owns, ← (call.grows h).2]
  | application => rwa [Database.Owns, ← happlications]

variable {fingerprint : String}

theorem onlyFor_claim {key : OperationId} {db db' : Database}
    (h : claimIdempotencyRequest requestId fingerprint db = .ok db') : OnlyFor key db db' := by
  obtain rfl | ⟨-, rfl⟩ := claimIdempotencyRequest_ok h
  · exact .refl _ _
  · exact .putRequest _ _ _

theorem onlyFor_complete {resultKind resultId : String} {key : OperationId} {db db' : Database}
    (h : completeIdempotencyRequest requestId resultKind resultId db = .ok db') :
    OnlyFor key db db' := by
  obtain rfl | ⟨request, -, -, rfl⟩ := completeIdempotencyRequest_ok h
  · exact .refl _ _
  · exact .putRequest _ _ _

theorem onlyFor_insertAttempt {r : CreateAttempt} {db db' : Database}
    (h : insertDeploymentAttempt sha256 r now db = .ok (.inr db')) :
    OnlyFor r.idempotencyRequestId db db' := by
  obtain ⟨-, request, -, -, hinsert⟩ := insertDeploymentAttempt_ok h
  obtain ⟨-, db₁, hput, rfl⟩ := CreateAttempt.insert_ok hinsert
  intro kind k howns
  exact OnlyFor.putAttempt hput (.inl rfl) kind k
    ((OnlyFor.putRequest k _ _ kind k howns).elim id fun _ => by cases kind <;> exact howns)

/-- A call of a key's work is a claim, or is about the operation of the key. -/
theorem target_of_worksFor {call : Call} {key : OperationId}
    (h : (Transaction.journal call).worksFor key = true) :
    (∃ id fp, call = .claimIdempotencyRequest id fp) ∨ call.target = some key := by
  cases call with
  | claimIdempotencyRequest id fp => exact .inl ⟨id, fp, rfl⟩
  | _ => exact .inr (beq_iff_eq.mp h)

/-- **The work of a key inserts rows of that key only.** -/
theorem Transaction.onlyFor {t : Transaction} {key : OperationId} {db db' : Database}
    (hwork : t.worksFor key = true) (h : t.run sha256 db = .ok db') : OnlyFor key db db' := by
  cases t with
  | journal call =>
    have hrun : call.run db = .ok db' := h
    obtain ⟨id, fp, rfl⟩ | htarget := target_of_worksFor hwork
    · exact onlyFor_claim hrun
    · exact call.onlyFor hrun htarget
  | complete requestId resultKind resultId => exact absurd hwork (by simp [worksFor])
  | createAttempt r now =>
    cases h
    obtain ⟨-, hrequest⟩ := Bool.and_eq_true_iff.mp hwork
    obtain rfl := beq_iff_eq.mp hrequest
    obtain hsame | hinsert := database_of_createDeploymentAttempt sha256 r now db
    · rw [hsame]
      exact .refl _ _
    · exact onlyFor_insertAttempt hinsert
  | updateAttempt id update =>
    obtain ⟨row, hrow, hput⟩ := updateDeploymentAttempt_ok h
    exact .putAttempt hput (.inr ⟨row, hrow, rfl⟩)

theorem onlyFor_requeue {id kind scope : String} {automatic : Bool} {key : OperationId}
    {db db' : Database} (h : requeueRecoveryDispatch id kind scope automatic now db = .ok db') :
    OnlyFor key db db' := by
  have honly := Call.onlyFor (.requeueRecoveryDispatch id kind scope automatic now) h rfl
  obtain ⟨d, o, hd, ho, -, -⟩ := requeueRecoveryDispatch_ok h
  have hattempts := (Call.grows (.requeueRecoveryDispatch id kind scope automatic now) h).2
  have happlications :=
    (Call.applications_of_run (.requeueRecoveryDispatch id kind scope automatic now) h rfl).1
  intro kind' k howns
  left
  cases kind' with
  | operation =>
    obtain hold | rfl := honly .operation k howns
    · exact hold
    · rw [Database.Owns, ho]
      rfl
  | dispatch =>
    obtain hold | rfl := honly .dispatch k howns
    · exact hold
    · rw [Database.Owns, hd]
      rfl
  | deployment => rwa [Database.Owns, ← hattempts]
  | application => rwa [Database.Owns, ← happlications]

/-! ## Declarations -/

variable {applicationId : String}

/-- An accepted write of an application writes its row, and the other tables of a key not at all. -/
theorem putApplication_ok {db db' : Database} {row : Application}
    (h : putApplication db applicationId row = .ok db') :
    db'.requests = db.requests ∧ db'.operations = db.operations ∧
      db'.dispatches = db.dispatches ∧ db'.attempts = db.attempts ∧
      db'.applications = db.applications.insert applicationId row := by
  simp only [putApplication, check_bind_eq_ok] at h
  obtain ⟨-, -, -, -, -, -, h⟩ := h
  obtain ⟨db₁, hretire, h⟩ := bind_eq_ok.mp h
  obtain ⟨-, h⟩ := check_bind_eq_ok.mp h
  cases h
  rw [retireSlug] at hretire
  split at hretire
  · split at hretire
    · obtain ⟨-, hretire⟩ := check_bind_eq_ok.mp hretire
      cases hretire
      exact ⟨rfl, rfl, rfl, rfl, rfl⟩
    · cases hretire
      exact ⟨rfl, rfl, rfl, rfl, rfl⟩
  · cases hretire
    exact ⟨rfl, rfl, rfl, rfl, rfl⟩

theorem grows_putApplication {db db' : Database} {row : Application}
    (h : putApplication db applicationId row = .ok db') : Grows db db' := by
  obtain ⟨hrequests, hoperations, hdispatches, hattempts, happlications⟩ := putApplication_ok h
  constructor
  · intro key request hrequest
    refine ⟨request, ?_, .refl request⟩
    rwa [Database.getRequest, hrequests]
  · intro kind key howns
    cases kind with
    | operation => rwa [Database.Owns, Database.getOperation, hoperations]
    | dispatch => rwa [Database.Owns, Database.getDispatch, hdispatches]
    | deployment => rwa [Database.Owns, hattempts]
    | application =>
      rw [Database.Owns, happlications, Table.lookup_insert_ite]
      exact Grows.isSome_of_put howns

theorem onlyFor_putApplication {db db' : Database} {row : Application}
    (h : putApplication db applicationId row = .ok db') : OnlyFor applicationId db db' := by
  obtain ⟨-, hoperations, hdispatches, hattempts, happlications⟩ := putApplication_ok h
  intro kind k howns
  by_cases hk : k = applicationId
  · exact .inr hk
  left
  cases kind with
  | operation => rwa [Database.Owns, Database.getOperation, hoperations] at howns
  | dispatch => rwa [Database.Owns, Database.getDispatch, hdispatches] at howns
  | deployment => rwa [Database.Owns, hattempts] at howns
  | application =>
    rwa [Database.Owns, happlications, Table.lookup_insert_ite, if_neg hk] at howns

/-! ## Handlers -/

/-- A step of a handler leaves the database, or is one of five transactions under its key. -/
inductive HandlerWrite (key : OperationId) (db : Database) : Database → Prop where
  | none : HandlerWrite key db db
  | claim {fingerprint : String} {db' : Database}
      (h : claimIdempotencyRequest key fingerprint db = .ok db') : HandlerWrite key db db'
  | enqueue {kind scope : String} {now : Timestamp} {created : Bool} {db' : Database}
      (h : enqueueOperationDispatch key kind scope now db = .ok (created, db')) :
      HandlerWrite key db db'
  | requeue {id kind scope : String} {now : Timestamp} {db' : Database}
      (h : requeueRecoveryDispatch id kind scope false now db = .ok db') : HandlerWrite key db db'
  | declare {row : Application} {db' : Database} (h : putApplication db key row = .ok db') :
      HandlerWrite key db db'
  | complete {resultKind resultId : String} {db' : Database}
      (h : completeIdempotencyRequest key resultKind resultId db = .ok db') :
      HandlerWrite key db db'

namespace HandlerWrite

variable {key : OperationId} {db db' : Database}

theorem grows (h : HandlerWrite key db db') : Grows db db' := by
  cases h with
  | none => exact .refl db
  | claim h => exact (Call.grows (.claimIdempotencyRequest key _) h).1
  | enqueue h => exact (grows_enqueue h).1
  | requeue h => exact (Call.grows (.requeueRecoveryDispatch _ _ _ false _) h).1
  | declare h => exact grows_putApplication h
  | complete h => exact grows_complete h

theorem onlyFor (h : HandlerWrite key db db') : OnlyFor key db db' := by
  cases h with
  | none => exact .refl key db
  | claim h => exact onlyFor_claim h
  | @enqueue kind scope now created db' h =>
    refine Call.onlyFor (.enqueueOperationDispatch key kind scope now) ?_ rfl
    rw [Call.run, h]
    rfl
  | requeue h => exact onlyFor_requeue h
  | declare h => exact onlyFor_putApplication h
  | complete h => exact onlyFor_complete h

/-- A stage that commits one of the transactions. -/
theorem commit {x : Except Error Database} {next : Handler}
    (h : ∀ db', x = .ok db' → HandlerWrite key db db') :
    HandlerWrite key db (Handler.commit db x next).1 := by
  cases hx : x with
  | ok db' => exact h db' hx
  | error e => exact .none

end HandlerWrite

/-- **What one step of a handler writes.** -/
theorem ApiRequest.write_advance (r : ApiRequest) (env : Surroundings) (db : Database)
    (handler : Handler) : HandlerWrite r.key db (r.advance env db handler).1 := by
  cases handler with
  | claiming => exact .commit fun db' h => .claim h
  | rereading =>
    rw [advance]
    split <;> exact .none
  | claimed row => exact .none
  | submitting =>
    rw [advance, submit]
    split
    · exact .none
    · refine .commit fun db' h => ?_
      obtain ⟨created, h⟩ := Call.enqueue_of_run h
      exact .enqueue h
    · exact .none
  | resubmitting operationId =>
    rw [advance, resubmit]
    split
    · exact .none
    · exact .commit fun db' h => .requeue h
    · exact .none
  | looking =>
    rw [advance]
    split <;> exact .none
  | declaring =>
    rw [advance]
    split
    · rw [declareKey]
      split
      · rename_i created db' h
        exact .declare (declare_ok h).2.2.2.2
      · exact .none
    · exact .none
  | reloading applicationId =>
    rw [advance]
    split <;> exact .none
  | completing resultKind resultId => exact .commit fun db' h => .complete h
  | loading applicationId =>
    rw [advance]
    split <;> exact .none
  | replied reply => exact .none

/-- What is known of a handler: it has not claimed its key, it failed, or the key is bound to the
fingerprint of its request. -/
inductive Bound (r : ApiRequest) (db : Database) : Handler → Prop where
  | claiming : Bound r db .claiming
  | failed {reply : Reply} (h : reply.failed = true) : Bound r db (.replied reply)
  | bound {handler : Handler} {request : IdempotencyRequest}
      (hrequest : db.getRequest r.key = some request)
      (hfingerprint : request.requestFingerprint = r.fingerprint) : Bound r db handler

/-- What is known of a handler stays known. -/
theorem Bound.grows {r : ApiRequest} {db db' : Database} {handler : Handler}
    (h : Bound r db handler) (hgrows : Grows db db') : Bound r db' handler := by
  cases h with
  | claiming => exact .claiming
  | failed h => exact .failed h
  | bound hrequest hfingerprint =>
    obtain ⟨request', hrequest', hkeeps⟩ := hgrows.requests _ _ hrequest
    exact .bound hrequest' (hkeeps.fingerprint.trans hfingerprint)

/-- A claim that returns has bound the key to its fingerprint. -/
theorem fingerprint_of_claim {key : String} {db db' : Database}
    (h : claimIdempotencyRequest key fingerprint db = .ok db') :
    ∃ request, db'.getRequest key = some request ∧ request.requestFingerprint = fingerprint := by
  rw [claimIdempotencyRequest] at h
  simp only [check_bind_eq_ok] at h
  obtain ⟨-, -, h⟩ := h
  cases hrequest : db.getRequest key with
  | none =>
    rw [hrequest] at h
    cases h
    refine ⟨⟨fingerprint, none, none⟩, ?_, rfl⟩
    rw [Database.getRequest_put, if_pos rfl]
  | some request =>
    rw [hrequest] at h
    obtain ⟨hsame, h⟩ := check_bind_eq_ok.mp h
    cases h
    exact ⟨request, hrequest, beq_iff_eq.mp (require_eq_ok.mp hsame)⟩

/-- A claim of a key that is bound to another fingerprint raises. -/
theorem claim_of_conflict {key : String} {db : Database}
    (hrequest : db.getRequest key = some request) (hne : request.requestFingerprint ≠ fingerprint) :
    ∃ e, claimIdempotencyRequest key fingerprint db = .error e := by
  cases h : claimIdempotencyRequest key fingerprint db with
  | error e => exact ⟨e, rfl⟩
  | ok db' =>
    obtain ⟨request', hrequest', hfingerprint⟩ := fingerprint_of_claim h
    obtain ⟨request₁, hrequest₁, hkeeps⟩ :=
      (Call.grows (.claimIdempotencyRequest key fingerprint) h).1.requests key request hrequest
    cases hrequest₁.symm.trans hrequest'
    exact absurd (hkeeps.fingerprint.symm.trans hfingerprint) hne

/-- A step of a handler keeps what is known of it. -/
theorem ApiRequest.bound_advance (r : ApiRequest) (env : Surroundings) {db : Database}
    {handler : Handler} (h : Bound r db handler) :
    Bound r (r.advance env db handler).1 (r.advance env db handler).2 := by
  cases h with
  | claiming =>
    rw [advance, claim]
    cases hclaim : claimIdempotencyRequest r.key r.fingerprint db with
    | ok db' =>
      obtain ⟨request, hrequest, hfingerprint⟩ := fingerprint_of_claim hclaim
      exact .bound hrequest hfingerprint
    | error e => exact .failed rfl
  | failed h => exact .failed h
  | bound hrequest hfingerprint =>
    obtain ⟨request', hrequest', hkeeps⟩ :=
      (r.write_advance env db handler).grows.requests _ _ hrequest
    exact .bound hrequest' (hkeeps.fingerprint.trans hfingerprint)

/-- Whatever the rest of the program settles, the next step of the handler is a failure that leaves
the database as it is. -/
def Handler.Refused (r : ApiRequest) (db : Database) (handler : Handler) : Prop :=
  ∀ env, ∃ reply, reply.failed = true ∧ r.advance env db handler = (db, .replied reply)

/-- A handler whose key is bound to another fingerprint is refused. -/
theorem Bound.refused {r : ApiRequest} {db : Database} {handler : Handler}
    (h : Bound r db handler) (hrequest : db.getRequest r.key = some request)
    (hne : request.requestFingerprint ≠ r.fingerprint) : handler.Refused r db := by
  intro env
  cases h with
  | claiming =>
    obtain ⟨e, he⟩ := claim_of_conflict hrequest hne
    refine ⟨.raised e, rfl, ?_⟩
    rw [ApiRequest.advance, ApiRequest.claim, he]
    rfl
  | failed h => exact ⟨_, h, rfl⟩
  | bound hbound hfingerprint =>
    cases hbound.symm.trans hrequest
    exact absurd hfingerprint hne

/-! ## Runs -/

/-- What one event does: the database grows, by rows of the event's key if it has one, and what is
known of the handlers stays known. -/
structure Service.Advances (s s' : Service) (key : Option OperationId) : Prop where
  grows : Grows s.db s'.db
  onlyFor : ∀ k, key = some k → OnlyFor k s.db s'.db
  bound : (∀ p ∈ s.handlers, Bound p.1 s.db p.2) → ∀ p ∈ s'.handlers, Bound p.1 s'.db p.2

variable {s : Service}

/-- An event that changes nothing but the database. -/
theorem Service.Advances.of_write {db' : Database} {key : Option OperationId}
    (hgrows : Grows s.db db') (honly : ∀ k, key = some k → OnlyFor k s.db db') :
    s.Advances ⟨db', s.handlers⟩ key :=
  ⟨hgrows, honly, fun h p hp => (h p hp).grows hgrows⟩

theorem Service.Advances.refl (s : Service) (key : Option OperationId) : s.Advances s key :=
  .of_write (.refl s.db) fun k _ => .refl k s.db

variable {s' : Service}

/-- **What every event does.** -/
theorem Service.next_advances {e : ServiceEvent} {key : Option OperationId}
    (h : s.next sha256 e = some (s', key)) : s.Advances s' key := by
  cases e with
  | arrive r =>
    cases h
    refine ⟨.refl s.db, fun k _ => .refl k s.db, fun hbound p hp => ?_⟩
    obtain hp | hp := List.mem_append.mp hp
    · exact hbound p hp
    · rw [List.mem_singleton.mp hp]
      exact .claiming
  | advance n env =>
    obtain ⟨⟨r, handler⟩, hget, h⟩ := Option.map_eq_some_iff.mp h
    obtain ⟨rfl, rfl⟩ := Prod.mk.inj h
    have hwrite := r.write_advance env s.db handler
    refine ⟨hwrite.grows, fun k hk => ?_, fun hbound p hp => ?_⟩
    · cases hk
      exact hwrite.onlyFor
    · obtain hp | rfl := List.mem_or_eq_of_mem_set hp
      · exact (hbound p hp).grows hwrite.grows
      · exact r.bound_advance env (hbound (r, handler) (List.mem_of_getElem? hget))
  | refuse n reply =>
    rw [next] at h
    split at h
    · cases h
    · cases h
    · rename_i r handler _ hget
      split at h
      · rename_i hfailed
        cases h
        refine ⟨.refl s.db, fun k _ => .refl k s.db, fun hbound p hp => ?_⟩
        obtain hp | rfl := List.mem_or_eq_of_mem_set hp
        · exact hbound p hp
        · exact .failed hfailed
      · cases h
  | work k t =>
    rw [next] at h
    split at h
    · rename_i hissued
      split at h
      · rename_i db' hrun
        cases h
        refine .of_write (t.grows sha256 hrun) fun k' hk' => ?_
        cases hk'
        exact Transaction.onlyFor (Bool.and_eq_true_iff.mp hissued).2 hrun
      · cases h
        exact .refl s _
    · cases h
  | other t =>
    rw [next] at h
    split at h
    · rename_i db' hrun
      cases h
      exact .of_write (t.grows sha256 hrun) fun k hk => absurd hk (by simp)
    · cases h
      exact .refl s _
  | stop =>
    cases h
    exact ⟨.refl s.db, fun k _ => .refl k s.db, fun _ p hp => absurd hp List.not_mem_nil⟩

/-- A row that was inserted is there after the step and was not there before it. -/
theorem mem_insertedRows {before after : Database} {row : RowKind × OperationId} :
    row ∈ insertedRows before after ↔ after.Owns row.1 row.2 ∧ ¬ before.Owns row.1 row.2 := by
  obtain ⟨kind, key⟩ := row
  have hkeys : key ∈ insertedKeys before after kind ↔
      after.Owns kind key ∧ ¬ before.Owns kind key := by
    rw [insertedKeys, List.mem_filter, Database.mem_keysOf, Bool.not_eq_true',
      List.contains_eq_mem, decide_eq_false_iff_not, Database.mem_keysOf]
  rw [← hkeys, insertedRows, List.mem_flatMap]
  constructor
  · rintro ⟨kind', -, hmem⟩
    obtain ⟨key', hkey, heq⟩ := List.mem_map.mp hmem
    obtain ⟨rfl, rfl⟩ := Prod.mk.inj heq
    exact hkey
  · intro hmem
    refine ⟨kind, ?_, List.mem_map.mpr ⟨key, hmem, rfl⟩⟩
    cases kind <;> simp

theorem nodup_insertedRows (before after : Database) : (insertedRows before after).Nodup := by
  rw [insertedRows, List.nodup_flatMap]
  constructor
  · intro kind _
    refine List.Nodup.map (fun k k' h => (Prod.mk.inj h).2) ?_
    exact (after.nodup_keysOf kind).filter _
  · have hkinds : [RowKind.operation, .dispatch, .deployment, .application].Nodup := by decide
    refine hkinds.imp fun {kind kind'} hne => ?_
    rw [Function.onFun, List.disjoint_left]
    rintro row hrow hrow'
    obtain ⟨k, -, rfl⟩ := List.mem_map.mp hrow
    obtain ⟨k', -, heq⟩ := List.mem_map.mp hrow'
    exact hne (Prod.mk.inj heq).1.symm

/-- The rows inserted along a run. -/
def insertions (ls : List (ServiceEvent × KeyEffect)) : List (RowKind × OperationId) :=
  ls.flatMap fun l => l.2.inserted

/-- What a run keeps: the rows inserted so far are different and still there, those of a step for a
key are the key's, and every handler is known. -/
structure RunInv (s₀ : Service) (ls : List (ServiceEvent × KeyEffect)) (s : Service) : Prop where
  grows : Grows s₀.db s.db
  nodup : (insertions ls).Nodup
  owned : ∀ row ∈ insertions ls, s.db.Owns row.1 row.2
  forKey : ∀ l ∈ ls, ∀ key, l.2.key = some key → ∀ row ∈ l.2.inserted, row.2 = key
  bound : ∀ p ∈ s.handlers, Bound p.1 s.db p.2

variable {l : ServiceEvent × KeyEffect}

theorem KeyStep.advances (h : KeyStep sha256 s l s') : s.Advances s' l.2.key := by
  obtain ⟨⟨s₁, key⟩, hnext, heq⟩ := Option.map_eq_some_iff.mp h
  obtain ⟨rfl, hl⟩ := Prod.mk.inj heq
  rw [← hl]
  exact Service.next_advances hnext

theorem KeyStep.inserted_eq (h : KeyStep sha256 s l s') :
    l.2.inserted = insertedRows s.db s'.db := by
  obtain ⟨⟨s₁, key⟩, -, heq⟩ := Option.map_eq_some_iff.mp h
  obtain ⟨rfl, hl⟩ := Prod.mk.inj heq
  rw [← hl]

theorem RunInv.step {s₀ : Service} {ls : List (ServiceEvent × KeyEffect)} (h : RunInv s₀ ls s)
    (hstep : KeyStep sha256 s l s') : RunInv s₀ (ls ++ [l]) s' := by
  have hadvances := hstep.advances
  have hinserted := hstep.inserted_eq
  have hinsertions : insertions (ls ++ [l]) = insertions ls ++ insertedRows s.db s'.db := by
    rw [insertions, List.flatMap_append, List.flatMap_singleton, hinserted]
    rfl
  refine ⟨h.grows.trans hadvances.grows, ?_, ?_, ?_, hadvances.bound h.bound⟩
  · rw [hinsertions, List.nodup_append']
    refine ⟨h.nodup, nodup_insertedRows _ _, List.disjoint_left.mpr fun row hrow hnew => ?_⟩
    exact (mem_insertedRows.mp hnew).2 (h.owned row hrow)
  · intro row hrow
    rw [hinsertions] at hrow
    obtain hrow | hnew := List.mem_append.mp hrow
    · exact hadvances.grows.rows _ _ (h.owned row hrow)
    · exact (mem_insertedRows.mp hnew).1
  · intro l' hl' k hk row hrow
    obtain hl' | hl' := List.mem_append.mp hl'
    · exact h.forKey l' hl' k hk row hrow
    · rw [List.mem_singleton.mp hl'] at hk hrow
      rw [hinserted] at hrow
      obtain ⟨hnow, hbefore⟩ := mem_insertedRows.mp hrow
      exact (hadvances.onlyFor k hk row.1 row.2 hnow).resolve_left hbefore

theorem runInv {ls : List (ServiceEvent × KeyEffect)} (h : Run (KeyStep sha256) s ls s')
    (hs : s.handlers = []) : RunInv s ls s' := by
  refine Run.invariant_trace h ⟨.refl s.db, List.nodup_nil, ?_, ?_, ?_⟩ fun ls t l u ht hstep =>
    ht.step hstep
  · intro row hrow
    cases hrow
  · intro l hl
    cases hl
  · intro p hp
    rw [hs] at hp
    cases hp

/-- **What a key keeps**, in every run from a state without handlers.  From any state of the run on,
a request keeps its fingerprint and, once it has one, its result ID.  Every key gets at most one
operation, dispatch, deployment attempt and application, and the steps for a key insert its own
rows only.  A handler whose key is bound to another fingerprint fails and leaves the database as it
is. -/
theorem keys_bound {sha256 : Text → String} {s t u : Service}
    {ls ls' : List (ServiceEvent × KeyEffect)} (h : Run (KeyStep sha256) s ls t)
    (h' : Run (KeyStep sha256) t ls' u) (hs : s.handlers = []) :
    (∀ key request, t.db.getRequest key = some request →
      ∃ request', u.db.getRequest key = some request' ∧ request.Keeps request') ∧
    ((insertions (ls ++ ls')).Nodup ∧
      ∀ l ∈ ls ++ ls', ∀ key, l.2.key = some key → ∀ row ∈ l.2.inserted, row.2 = key) ∧
    ∀ p ∈ u.handlers, ∀ request, u.db.getRequest p.1.key = some request →
      request.requestFingerprint ≠ p.1.fingerprint → p.2.Refused p.1 u.db := by
  have hgrows : Grows t.db u.db :=
    h'.invariant (I := fun v => Grows t.db v.db) (.refl t.db) fun v l w hv hstep =>
      hv.trans (KeyStep.advances hstep).grows
  have hinv := runInv (h.append h') hs
  refine ⟨hgrows.requests, ⟨hinv.nodup, hinv.forKey⟩, ?_⟩
  intro p hp request hrequest hne
  exact (hinv.bound p hp).refused hrequest hne

/-- A request for the application `shop`. -/
def shopRequest : ApiRequest where
  key := "00000000-0000-4000-8000-000000000001"
  fingerprint := "e3b0c44298fc1c149afbf4c8996fb92427ae41e4649b934ca495991b7852b855"
  endpoint := .createApplication "shop"

/-- A request for another application under the same key. -/
def otherRequest : ApiRequest where
  key := shopRequest.key
  fingerprint := "cc63cf4a8d9554df7424de977b66d9b6327e0a56344b84b592e08836e1a4c04a"
  endpoint := .createApplication "blog"

/-- The events of a request for an application, and steps of its handler. -/
def declaring (steps : Nat) : List ServiceEvent :=
  .arrive shopRequest :: List.replicate steps (.advance 0 ⟨0, samplePolicy, none⟩)

/-- The process stops between the declaration and its completion; then the request is made again,
and the other request under the same key. -/
def shopRun : Option ((Service × List (ServiceEvent × KeyEffect)) ×
    (Service × List (ServiceEvent × KeyEffect))) :=
  (runInputs (Service.step fun _ => "") ⟨.empty, []⟩ (declaring 5 ++ [.stop])).bind fun first =>
    (runInputs (Service.step fun _ => "") first.1 (declaring 4 ++ [.arrive otherRequest])).map
      fun second => (first, second)

/-- What is seen of the run. -/
theorem shopRun_facts :
    (shopRun.map fun x => (insertions (x.1.2 ++ x.2.2), x.2.1.handlers[1]?,
        x.2.1.db.getRequest shopRequest.key)) =
      some ([(.application, shopRequest.key)], some (otherRequest, .claiming),
        some ⟨shopRequest.fingerprint, some "application", some shopRequest.key⟩) := by
  decide

/-- The retry declares nothing again, and the other request is refused. -/
theorem shop_key_bound :
    ∃ t u ls ls', Run (KeyStep fun _ => "") ⟨.empty, []⟩ ls t ∧ Run (KeyStep fun _ => "") t ls' u ∧
      insertions (ls ++ ls') = [(.application, shopRequest.key)] ∧
      (insertions (ls ++ ls')).Nodup ∧ Handler.claiming.Refused otherRequest u.db := by
  obtain ⟨⟨⟨t, ls⟩, u, ls'⟩, hrun, hfacts⟩ := Option.map_eq_some_iff.mp shopRun_facts
  rw [shopRun, Option.bind_eq_some_iff] at hrun
  obtain ⟨first, hfirst, hrun⟩ := hrun
  obtain ⟨second, hsecond, heq⟩ := Option.map_eq_some_iff.mp hrun
  obtain ⟨rfl, rfl⟩ := Prod.mk.inj heq
  obtain ⟨hinsertions, hfacts⟩ := Prod.mk.inj hfacts
  obtain ⟨hhandler, hrequest⟩ := Prod.mk.inj hfacts
  have h : Run (KeyStep fun _ => "") ⟨.empty, []⟩ ls t := .of_runInputs hfirst
  have h' : Run (KeyStep fun _ => "") t ls' u := .of_runInputs hsecond
  have hbound := keys_bound h h' rfl
  refine ⟨t, u, ls, ls', h, h', hinsertions, hbound.2.1.1, ?_⟩
  exact hbound.2.2 (otherRequest, .claiming) (List.mem_of_getElem? hhandler) _ hrequest (by decide)

end Controller
end OpenstackPlatform
