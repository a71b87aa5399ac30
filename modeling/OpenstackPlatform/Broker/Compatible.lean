import OpenstackPlatform.Broker.Bindings
import OpenstackPlatform.Broker.Absorption

/-!
# What is bound is neither set nor deleted

`Deployment.Compatible` is the law: a saved configuration binds no name that is a variable or that an
unsettled `env_set` sets, and no resource with a `storage_delete` that has not failed.  What carries it
is `Known`: an intent settles only after its operation did, so the broker never takes an `env_set` for
finished that the controller can still perform.

Two steps can break that.  A final write that comes after its intent settled undoes it, and a request
that the controller admits after it rejected another one of the same intent is performed behind the
broker's back.  `compatible_run` is the law for runs without either.
-/

namespace OpenstackPlatform
namespace Broker

open Library

/-- Two versions of the row of an intent. -/
structure Intent.Same (row row' : Intent) : Prop where
  kind : row'.kind = row.kind
  app : row'.app = row.app
  names : row'.names = row.names
  resource : row'.resource = row.resource
  controllerKey : row'.controllerKey = row.controllerKey

/-- The row of an operation is the row of its intent. -/
structure Operation.For (op : Operation) (row : Intent) : Prop where
  kind : op.kind = row.kind
  app : op.app = row.app
  names : op.names = row.names
  resource : op.resource = row.resource

/-- What an answer on its way says is so. -/
structure Reply.Truthful (reply : Reply) (flight : Flight) (remote : Remote) : Prop where
  refused : flight.row.polled = none → flight.row.kind = .envSet → reply.refuses = true →
    remote.operations.lookup flight.intent = none
  polled : ∀ key, flight.row.polled = some key → reply.status = 200 →
    ∀ status, reply.operationStatus = some status → status.unfinished = false →
      ∃ op, remote.operations.lookup flight.intent = some op ∧ op.status = status

/-- What the journal, the requests between and the controller know of each other. -/
structure Known (intents : Table IntentId Intent) (flights : Table Nat Flight)
    (calls : Table Nat Call) (remote : Remote) : Prop where
  rows : ∀ i row, intents.lookup i = some row →
    row.controllerKey = i ∧ (∀ key, row.operationId = some key → key = i) ∧
      row.kind ≠ .createApp ∧ row.kind ≠ .appDelete
  asked : ∀ f call, calls.lookup f = some call →
    (∀ key, call.flight.row.operationId = some key → key = call.flight.intent) ∧
      ∃ row, intents.lookup call.flight.intent = some row ∧ row.Same call.flight.row
  flown : ∀ f flight, flights.lookup f = some flight →
    ∃ call, calls.lookup f = some call ∧ call.flight = flight
  operations : ∀ key op, remote.operations.lookup key = some op →
    ∃ row, intents.lookup key = some row ∧ op.For row ∧
      (row.kind = .envSet → op.status.unfinished = true → row.state.settled = false)
  replies : ∀ f flight reply, flights.lookup f = some flight →
    calls.lookup f = some (.replied flight reply) → reply.Truthful flight remote
  owned : ∀ i row, intents.lookup i = some row → row.kind = .storageDelete →
    ∀ resource, row.resource = some resource →
      ∃ found, remote.resources.lookup resource = some found ∧ row.app = some found.app
  performed : ∀ key op, remote.operations.lookup key = some op → op.kind = .storageDelete →
    op.status = .succeeded → ∀ resource found, op.resource = some resource →
      remote.resources.lookup resource = some found → found.removed = true
  deleted : ∀ i row, intents.lookup i = some row → row.kind = .storageDelete →
    row.state = .succeeded → ∀ resource found, row.resource = some resource →
      remote.resources.lookup resource = some found → found.removed = true

namespace Known

variable {intents : Table IntentId Intent} {flights : Table Nat Flight} {calls : Table Nat Call}
  {remote : Remote}

/-! ## The journal's transactions -/

/-- A new intent. -/
theorem record {i : IntentId} (k : Known intents flights calls remote) (row : Intent)
    (hnone : intents.lookup i = none) (hkey : row.controllerKey = i)
    (hoperation : row.operationId = none) (hkind : row.kind ≠ .createApp ∧ row.kind ≠ .appDelete)
    (hstate : row.state ≠ .succeeded)
    (howned : row.kind = .storageDelete → ∀ resource, row.resource = some resource →
      ∃ found, remote.resources.lookup resource = some found ∧ row.app = some found.app) :
    Known (intents.insert i row) flights calls remote := by
  have hold : ∀ {j old}, intents.lookup j = some old →
      (intents.insert i row).lookup j = some old := by
    intro j old hj
    rw [Table.lookup_insert_ite, if_neg]
    · exact hj
    · rintro rfl
      rw [hnone] at hj
      cases hj
  have hcases : ∀ {j new}, (intents.insert i row).lookup j = some new →
      (j = i ∧ new = row) ∨ intents.lookup j = some new := by
    intro j new hj
    rw [Table.lookup_insert_ite] at hj
    split at hj
    next heq => exact .inl ⟨heq, (Option.some.inj hj).symm⟩
    next => exact .inr hj
  constructor
  · intro j new hj
    obtain ⟨rfl, rfl⟩ | hj := hcases hj
    · refine ⟨hkey, fun key hsome => ?_, hkind⟩
      rw [hoperation] at hsome
      cases hsome
    · exact k.rows j new hj
  · intro f call hcall
    obtain ⟨hid, old, hrow, hsame⟩ := k.asked f call hcall
    exact ⟨hid, old, hold hrow, hsame⟩
  · exact k.flown
  · intro key op hop
    obtain ⟨old, hrow, hrest⟩ := k.operations key op hop
    exact ⟨old, hold hrow, hrest⟩
  · exact k.replies
  · intro j new hj
    obtain ⟨rfl, rfl⟩ | hj := hcases hj
    · exact howned
    · exact k.owned j new hj
  · exact k.performed
  · intro j new hj hdelete hsucceeded
    obtain ⟨rfl, rfl⟩ | hj := hcases hj
    · exact absurd hsucceeded hstate
    · exact k.deleted j new hj hdelete hsucceeded

/-- What an update of an intent keeps: an `env_set` does not settle before its operation, and a
`storage_delete` does not succeed before its resource is gone. -/
structure Keeps (remote : Remote) (i : IntentId) (row row' : Intent) : Prop where
  same : row.Same row'
  operationId : ∀ key, row'.operationId = some key → key = i
  settles : row.kind = .envSet → row'.state.settled = true → row.state.settled = true ∨
    ∀ op, remote.operations.lookup i = some op → op.status.unfinished = false
  succeeds : row.kind = .storageDelete → row'.state = .succeeded → row.state = .succeeded ∨
    ∀ resource found, row.resource = some resource →
      remote.resources.lookup resource = some found → found.removed = true

/-- An update of one intent. -/
theorem modify {i : IntentId} {g : Intent → Intent} (k : Known intents flights calls remote)
    (hg : ∀ row, intents.lookup i = some row → Keeps remote i row (g row)) :
    Known (intents.modify i g) flights calls remote := by
  have hnew : ∀ {j new}, (intents.modify i g).lookup j = some new →
      ∃ old, intents.lookup j = some old ∧ ((j = i ∧ new = g old) ∨ new = old) := by
    intro j new hj
    rw [Table.lookup_modify] at hj
    split at hj
    next heq =>
      subst heq
      obtain ⟨old, hold, rfl⟩ := Option.map_eq_some_iff.mp hj
      exact ⟨old, hold, .inl ⟨rfl, rfl⟩⟩
    next => exact ⟨new, hj, .inr rfl⟩
  have hold : ∀ {j old}, intents.lookup j = some old →
      ∃ new, (intents.modify i g).lookup j = some new ∧ ((j = i ∧ new = g old) ∨ new = old) := by
    intro j old hj
    rw [Table.lookup_modify]
    split
    next heq =>
      subst heq
      exact ⟨g old, by rw [hj, Option.map_some], .inl ⟨rfl, rfl⟩⟩
    next => exact ⟨old, hj, .inr rfl⟩
  constructor
  · intro j new hj
    obtain ⟨old, hrow, hcase⟩ := hnew hj
    obtain ⟨hkey, hid, hkind⟩ := k.rows j old hrow
    obtain ⟨rfl, rfl⟩ | rfl := hcase
    · have h := hg old hrow
      rw [h.same.controllerKey, h.same.kind]
      exact ⟨hkey, h.operationId, hkind⟩
    · exact ⟨hkey, hid, hkind⟩
  · intro f call hcall
    obtain ⟨hid, old, hrow, hsame⟩ := k.asked f call hcall
    obtain ⟨new, hlookup, hcase⟩ := hold hrow
    refine ⟨hid, new, hlookup, ?_⟩
    obtain ⟨rfl, rfl⟩ | rfl := hcase
    · have h := (hg old hrow).same
      exact ⟨hsame.kind.trans h.kind.symm, hsame.app.trans h.app.symm,
        hsame.names.trans h.names.symm, hsame.resource.trans h.resource.symm,
        hsame.controllerKey.trans h.controllerKey.symm⟩
    · exact hsame
  · exact k.flown
  · intro key op hop
    obtain ⟨old, hrow, hfor, hopen⟩ := k.operations key op hop
    obtain ⟨new, hlookup, hcase⟩ := hold hrow
    refine ⟨new, hlookup, ?_⟩
    obtain ⟨rfl, rfl⟩ | rfl := hcase
    · have h := hg old hrow
      refine ⟨⟨hfor.kind.trans h.same.kind.symm, hfor.app.trans h.same.app.symm,
        hfor.names.trans h.same.names.symm, hfor.resource.trans h.same.resource.symm⟩,
        fun hkind hunfinished => ?_⟩
      rw [h.same.kind] at hkind
      refine Bool.eq_false_iff.mpr fun hsettled => ?_
      rcases h.settles hkind hsettled with hbefore | hdone
      · rw [hopen hkind hunfinished] at hbefore
        cases hbefore
      · rw [hdone op hop] at hunfinished
        cases hunfinished
    · exact ⟨hfor, hopen⟩
  · exact k.replies
  · intro j new hj
    obtain ⟨old, hrow, hcase⟩ := hnew hj
    obtain ⟨rfl, rfl⟩ | rfl := hcase
    · have h := (hg old hrow).same
      rw [h.kind, h.resource, h.app]
      exact k.owned j old hrow
    · exact k.owned j new hrow
  · exact k.performed
  · intro j new hj
    obtain ⟨old, hrow, hcase⟩ := hnew hj
    obtain ⟨rfl, rfl⟩ | rfl := hcase
    · have h := hg old hrow
      rw [h.same.kind, h.same.resource]
      intro hkind hsucceeded
      rcases h.succeeds hkind hsucceeded with hbefore | hgone
      · exact k.deleted j old hrow hkind hbefore
      · exact hgone
    · exact k.deleted j new hrow

/-- A dispatch starts with the row that it read. -/
theorem depart {f : Nat} {flight : Flight}
    (k : Known intents flights calls remote) (row : Intent)
    (hrow : intents.lookup flight.intent = some row) (hsame : row.Same flight.row)
    (hid : ∀ key, flight.row.operationId = some key → key = flight.intent) :
    Known intents (flights.insert f flight) (calls.insert f (.asked flight)) remote where
  rows := k.rows
  asked f' call hcall := by
    rw [Table.lookup_insert_ite] at hcall
    split at hcall
    next =>
      cases hcall
      exact ⟨hid, row, hrow, hsame⟩
    next => exact k.asked f' call hcall
  flown f' flight' hflight := by
    rw [Table.lookup_insert_ite] at hflight ⊢
    split at hflight
    next heq =>
      cases hflight
      exact ⟨.asked flight, if_pos heq, rfl⟩
    next hne =>
      rw [if_neg hne]
      exact k.flown f' flight' hflight
  operations := k.operations
  replies f' flight' reply hflight hcall := by
    rw [Table.lookup_insert_ite] at hflight hcall
    split at hcall
    next => cases hcall
    next hne =>
      rw [if_neg hne] at hflight
      exact k.replies f' flight' reply hflight hcall
  owned := k.owned
  performed := k.performed
  deleted := k.deleted

/-- A dispatch ends. -/
theorem land (f : Nat) (k : Known intents flights calls remote) :
    Known intents (flights.erase f) calls remote where
  rows := k.rows
  asked := k.asked
  flown f' flight hflight := by
    rw [Table.lookup_erase_ite] at hflight
    split at hflight
    · cases hflight
    · exact k.flown f' flight hflight
  operations := k.operations
  replies f' flight reply hflight hcall := by
    rw [Table.lookup_erase_ite] at hflight
    split at hflight
    · cases hflight
    · exact k.replies f' flight reply hflight hcall
  owned := k.owned
  performed := k.performed
  deleted := k.deleted

/-! ## The controller's steps -/

/-- Resources only go. -/
def Kept (resources resources' : Table ResourceId Resource) : Prop :=
  ∀ resource found, resources.lookup resource = some found →
    ∃ found', resources'.lookup resource = some found' ∧ found'.app = found.app ∧
      (found.removed = true → found'.removed = true)

theorem Kept.refl (resources : Table ResourceId Resource) : Kept resources resources :=
  fun _ found h => ⟨found, h, rfl, id⟩

/-- The controller changes what it lists. -/
theorem relist {resources : Table ResourceId Resource}
    (k : Known intents flights calls remote) (keys : List (AppId × String))
    (hkept : Kept remote.resources resources) :
    Known intents flights calls { remote with keys := keys, resources := resources } where
  rows := k.rows
  asked := k.asked
  flown := k.flown
  operations := k.operations
  replies f flight reply hflight hcall :=
    ⟨(k.replies f flight reply hflight hcall).refused,
      (k.replies f flight reply hflight hcall).polled⟩
  owned i row hrow hkind resource hresource := by
    obtain ⟨found, hfound, happ⟩ := k.owned i row hrow hkind resource hresource
    obtain ⟨found', hfound', happ', -⟩ := hkept resource found hfound
    exact ⟨found', hfound', by rw [happ, happ']⟩
  performed key op hop hkind hsucceeded resource found' hresource hfound' := by
    obtain ⟨row, hrow, hfor, -⟩ := k.operations key op hop
    obtain ⟨found, hfound, -⟩ := k.owned key row hrow (hfor.kind.symm.trans hkind) resource
      (hfor.resource.symm.trans hresource)
    obtain ⟨found'', hfound'', -, hremoved⟩ := hkept resource found hfound
    cases hfound''.symm.trans hfound'
    exact hremoved (k.performed key op hop hkind hsucceeded resource found hresource hfound)
  deleted i row hrow hkind hsucceeded resource found' hresource hfound' := by
    obtain ⟨found, hfound, -⟩ := k.owned i row hrow hkind resource hresource
    obtain ⟨found'', hfound'', -, hremoved⟩ := hkept resource found hfound
    cases hfound''.symm.trans hfound'
    exact hremoved (k.deleted i row hrow hkind hsucceeded resource found hresource hfound)

/-- An operation starts or goes on. -/
theorem operate {key : Nat} {op : Operation} {row : Intent}
    (k : Known intents flights calls remote) (hrow : intents.lookup key = some row)
    (hfor : op.For row)
    (hopen : row.kind = .envSet → op.status.unfinished = true → row.state.settled = false)
    (hgone : op.kind = .storageDelete → op.status = .succeeded → ∀ resource found,
      op.resource = some resource → remote.resources.lookup resource = some found →
        found.removed = true)
    (hbefore : ∀ old, remote.operations.lookup key = some old → old.status.unfinished = true)
    (hnew : row.kind = .envSet → remote.operations.lookup key = none →
      ∀ f flight reply, flights.lookup f = some flight →
        calls.lookup f = some (.replied flight reply) → flight.intent = key →
          flight.row.polled = none → reply.refuses = false) :
    Known intents flights calls
      { remote with operations := remote.operations.insert key op } where
  rows := k.rows
  asked := k.asked
  flown := k.flown
  operations key' op' hop := by
    replace hop : (remote.operations.insert key op).lookup key' = some op' := hop
    rw [Table.lookup_insert_ite] at hop
    split at hop
    next heq =>
      cases hop
      exact ⟨row, heq ▸ hrow, hfor, hopen⟩
    next => exact k.operations key' op' hop
  replies f flight reply hflight hcall := by
    have htruth := k.replies f flight reply hflight hcall
    constructor
    · intro hpolled hkind hrefuses
      have hnone := htruth.refused hpolled hkind hrefuses
      show (remote.operations.insert key op).lookup flight.intent = none
      rw [Table.lookup_insert_ite, if_neg]
      · exact hnone
      · intro heq
        obtain ⟨-, row', hrow', hsame⟩ := k.asked f _ hcall
        have hrow' : intents.lookup flight.intent = some row' := hrow'
        rw [heq] at hrow' hnone
        cases hrow.symm.trans hrow'
        have hfalse := hnew (hsame.kind.symm.trans hkind) hnone f flight reply hflight hcall heq
          hpolled
        rw [hrefuses] at hfalse
        cases hfalse
    · intro key' hpolled hstatus status hsome hfinished
      obtain ⟨old, hold, hstatus'⟩ := htruth.polled key' hpolled hstatus status hsome hfinished
      refine ⟨old, ?_, hstatus'⟩
      show (remote.operations.insert key op).lookup flight.intent = some old
      rw [Table.lookup_insert_ite, if_neg]
      · exact hold
      · intro heq
        rw [heq] at hold
        have := hbefore old hold
        rw [hstatus', hfinished] at this
        cases this
  owned := k.owned
  performed key' op' hop := by
    replace hop : (remote.operations.insert key op).lookup key' = some op' := hop
    rw [Table.lookup_insert_ite] at hop
    split at hop
    next =>
      cases hop
      exact hgone
    next => exact k.performed key' op' hop
  deleted := k.deleted

/-- An answer is on its way. -/
theorem reply {f : Nat} {flight : Flight} {r : Reply} (k : Known intents flights calls remote)
    (hcall : calls.lookup f = some (.asked flight)) (htruth : r.Truthful flight remote) :
    Known intents flights (calls.insert f (.replied flight r)) remote where
  rows := k.rows
  asked f' call hcall' := by
    rw [Table.lookup_insert_ite] at hcall'
    split at hcall'
    next =>
      cases hcall'
      exact k.asked f (.asked flight) hcall
    next => exact k.asked f' call hcall'
  flown f' flight' hflight := by
    obtain ⟨call, hcall', hfor⟩ := k.flown f' flight' hflight
    rw [Table.lookup_insert_ite]
    split
    next heq =>
      subst heq
      cases hcall.symm.trans hcall'
      exact ⟨_, rfl, hfor⟩
    next => exact ⟨call, hcall', hfor⟩
  operations := k.operations
  replies f' flight' r' hflight hcall' := by
    rw [Table.lookup_insert_ite] at hcall'
    split at hcall'
    next =>
      obtain ⟨rfl, rfl⟩ := Call.replied.inj (Option.some.inj hcall')
      exact htruth
    next => exact k.replies f' flight' r' hflight hcall'
  owned := k.owned
  performed := k.performed
  deleted := k.deleted

end Known

/-! ## What the controller answers -/

theorem refuses_eq_false {reply : Reply} (h : reply.status = 202 ∨ 500 ≤ reply.status) :
    reply.refuses = false := by
  have hstatus : rejections.contains reply.status = false := by
    simp only [rejections, List.contains_eq_mem, List.mem_cons, List.not_mem_nil, or_false,
      decide_eq_false_iff_not]
    omega
  unfold Reply.refuses
  rw [hstatus, Bool.false_and]

theorem polled_operationId {row : Intent} {key : Nat} (h : row.polled = some key) :
    row.operationId = some key := by
  unfold Intent.polled at h
  split at h
  · exact h
  · cases h

namespace Remote

variable {r r' : Remote} {row : Intent} {verdict : Verdict} {reply : Reply}

/-- What a request does to the operations: nothing, or it starts one, or queues one again. -/
theorem handle_cases (h : r.handle row verdict = some (r', reply)) :
    r' = r ∨
    (∃ op, r.operations.lookup row.controllerKey = some op ∧ op.status = .recoveryRequired ∧
      r' = { r with operations :=
        r.operations.insert row.controllerKey { op with status := .running } }) ∨
    (row.polled = none ∧ r.operations.lookup row.controllerKey = none ∧
      r' = { r with operations := r.operations.insert row.controllerKey (start row) }) := by
  unfold handle at h
  split at h
  next key hpolled =>
    split at h
    · obtain ⟨rfl, -⟩ := Prod.mk.inj (Option.some.inj h)
      exact .inl rfl
    · cases h
    · split at h
      · obtain ⟨rfl, -⟩ := Prod.mk.inj (Option.some.inj h)
        exact .inl rfl
      · cases h
  next hpolled =>
    split at h
    next op hop =>
      unfold replay at h
      split at h
      · split at h
        next hrecovery =>
          obtain ⟨rfl, -⟩ := Prod.mk.inj (Option.some.inj h)
          exact .inr (.inl ⟨op, hop, hrecovery, rfl⟩)
        next =>
          obtain ⟨rfl, -⟩ := Prod.mk.inj (Option.some.inj h)
          exact .inl rfl
      all_goals
        split at h
        · obtain ⟨rfl, -⟩ := Prod.mk.inj (Option.some.inj h)
          exact .inl rfl
        · cases h
    next hnone =>
      unfold enroll at h
      split at h
      · obtain ⟨rfl, -⟩ := Prod.mk.inj (Option.some.inj h)
        exact .inr (.inr ⟨hpolled, hnone, rfl⟩)
      all_goals
        split at h
        · obtain ⟨rfl, -⟩ := Prod.mk.inj (Option.some.inj h)
          exact .inl rfl
        · cases h

/-- A request that is not a poll is refused for good only where its key has no operation. -/
theorem handle_refused (h : r.handle row verdict = some (r', reply)) (hpolled : row.polled = none)
    (hkind : row.kind = .envSet) (hrefuses : reply.refuses = true) :
    r'.operations.lookup row.controllerKey = none := by
  have habsurd : reply.refuses = false → r'.operations.lookup row.controllerKey = none := by
    intro hfalse
    rw [hrefuses] at hfalse
    cases hfalse
  unfold handle at h
  rw [hpolled] at h
  dsimp only at h
  split at h
  next op hop =>
    unfold replay at h
    split at h
    · split at h
      all_goals
        obtain ⟨-, rfl⟩ := Prod.mk.inj (Option.some.inj h)
        exact habsurd (refuses_eq_false (.inl rfl))
    next status code =>
      split at h
      next hcode =>
        obtain ⟨-, rfl⟩ := Prod.mk.inj (Option.some.inj h)
        refine habsurd ?_
        rw [hkind] at hcode
        have hany : code.any recoverableCodes.contains = true := hcode.2
        show (rejections.contains status && !code.any recoverableCodes.contains) = false
        rw [hany, Bool.not_true, Bool.and_false]
      · cases h
    next status =>
      split at h
      next hstatus =>
        obtain ⟨-, rfl⟩ := Prod.mk.inj (Option.some.inj h)
        exact habsurd (refuses_eq_false (.inr hstatus))
      · cases h
  next hnone =>
    unfold enroll at h
    split at h
    · obtain ⟨-, rfl⟩ := Prod.mk.inj (Option.some.inj h)
      exact habsurd (refuses_eq_false (.inl rfl))
    all_goals
      split at h
      · obtain ⟨rfl, -⟩ := Prod.mk.inj (Option.some.inj h)
        exact hnone
      · cases h

/-- A poll reports the operation as it is. -/
theorem handle_polled {key : Nat} (h : r.handle row verdict = some (r', reply))
    (hpolled : row.polled = some key) (hstatus : reply.status = 200) {status : OperationStatus}
    (hsome : reply.operationStatus = some status) :
    ∃ op, r'.operations.lookup key = some op ∧ op.status = status := by
  unfold handle at h
  rw [hpolled] at h
  dsimp only at h
  split at h
  · cases h
    unfold poll at hstatus hsome
    split at hsome
    next op hop => exact ⟨op, hop, Option.some.inj hsome⟩
    next => cases hsome
  · cases h
  · split at h
    · obtain ⟨-, rfl⟩ := Prod.mk.inj (Option.some.inj h)
      cases hsome
    · cases h

theorem handle_truthful {flight : Flight} (h : r.handle flight.row verdict = some (r', reply))
    (hkey : flight.row.controllerKey = flight.intent)
    (hid : ∀ key, flight.row.operationId = some key → key = flight.intent) :
    reply.Truthful flight r' where
  refused hpolled hkind hrefuses := hkey ▸ handle_refused h hpolled hkind hrefuses
  polled key hpolled hstatus status hsome _ := by
    obtain rfl := hid key (polled_operationId hpolled)
    exact handle_polled h hpolled hstatus hsome

end Remote

/-! ## How a dispatch settles its intent -/

/-- What a delivery settles was rejected; a poll settles what its operation settled. -/
theorem answered_settled {row : Intent} (reply : Option Reply)
    (hcreate : row.kind ≠ .createApp) (h : (row.answered reply).1.settled = true) :
    ∃ r, reply = some r ∧
      ((row.polled = none ∧ r.refuses = true ∧ (row.answered reply).1 = .failed) ∨
      ∃ key status, row.polled = some key ∧ r.status = 200 ∧ r.operationStatus = some status ∧
        status.unfinished = false ∧
        ((row.answered reply).1 = .succeeded → status = .succeeded)) := by
  unfold Intent.answered at h ⊢
  split at h
  next key r hpolled =>
    refine ⟨r, rfl, .inr ⟨key, ?_⟩⟩
    simp only [Intent.afterPoll] at h ⊢
    split at h
    next hevidence =>
      rw [if_pos hevidence]
      split at h
      · exact absurd h (by simp [IntentState.settled])
      · exact absurd h (by simp [IntentState.settled])
      · exact absurd h (by simp [IntentState.settled])
      next hstatus => exact ⟨.succeeded, hpolled, hevidence.1, hstatus, rfl, fun _ => rfl⟩
      next hstatus =>
        refine ⟨.failed, hpolled, hevidence.1, hstatus, rfl, fun hsucceeded => ?_⟩
        split at hsucceeded
        all_goals cases hsucceeded
    next => exact absurd h (by simp [IntentState.settled])
  next => exact absurd h (by simp [IntentState.settled])
  next r hpolled =>
    refine ⟨r, rfl, .inl ⟨hpolled, ?_⟩⟩
    simp only [Intent.afterDelivery, hcreate, and_false, if_false] at h ⊢
    split at h
    · split at h
      all_goals exact absurd h (by simp [IntentState.settled])
    split at h
    · exact absurd h (by simp [IntentState.settled])
    next hnot503 =>
      split at h
      next hrejected =>
        split at h
        · exact absurd h (by simp [IntentState.settled])
        next hcode =>
          refine ⟨?_, ?_⟩
          · rw [Reply.refuses, Bool.and_eq_true]
            exact ⟨List.contains_iff_mem.mpr hrejected, by rw [Bool.eq_false_iff.mpr hcode]; rfl⟩
          · rw [if_neg (by rintro h202; simp [h202, rejections] at hrejected), if_neg hnot503,
              if_pos hrejected, if_neg hcode]
      · exact absurd h (by simp [IntentState.settled])
  next => exact absurd h (by simp [IntentState.settled])

/-! ## The law -/

namespace Board

/-- A saved configuration binds no name that is a variable or that an unsettled `env_set` sets, and no
resource with a `storage_delete` that is unsettled or succeeded. -/
structure Compatible (b : Board) (remote : Remote) : Prop where
  names : ∀ app c name, b.saved app = some c → c.binds name = true →
    (app, name) ∉ remote.keys ∧ ∀ i row, b.intents.lookup i = some row → row.app = some app →
      row.kind = .envSet → name ∈ row.names → row.state.settled = true
  resources : ∀ app c resource, b.saved app = some c → c.uses resource = true →
    ∀ i row, b.intents.lookup i = some row → row.kind = .storageDelete →
      row.resource = some resource → row.state.settled = true ∧ row.state ≠ .succeeded

/-- What a configuration binds belongs to its application. -/
def Bound (b : Board) (remote : Remote) : Prop :=
  ∀ app c resource, b.saved app = some c → c.uses resource = true →
    ∃ found, remote.resources.lookup resource = some found ∧ found.app = app

variable {b b' : Board} {remote remote' : Remote} {i : IntentId}

theorem saved_congr (happs : b'.apps = b.apps) (hconfigurations : b'.configurations =
    b.configurations) (app : AppId) : b'.saved app = b.saved app := by
  unfold saved
  rw [happs, hconfigurations]

/-- What the insertion of an intent does. -/
theorem record_cases {intent : Intent} (h : b.record i intent = some b') :
    b.intents.lookup i = none ∧ (∀ app, b'.saved app = b.saved app) ∧
      b'.intents = b.intents.insert i
        { intent with state := .prepared, operationId := none, lease := 0 } := by
  unfold record at h
  split at h
  next hnone =>
    cases h
    exact ⟨Option.isNone_iff_eq_none.mp hnone, fun app => saved_congr rfl rfl app, rfl⟩
  next => cases h

/-- A new intent that its admission checked. -/
theorem Compatible.insert {row : Intent} (h : b.Compatible remote)
    (hsaved : ∀ app, b'.saved app = b.saved app) (hintents : b'.intents = b.intents.insert i row)
    (hnames : row.kind = .envSet → ∀ app c name, row.app = some app → b.saved app = some c →
      name ∈ row.names → c.binds name = false)
    (hresource : row.kind = .storageDelete → ∀ app c resource, row.resource = some resource →
      b.saved app = some c → c.uses resource = false) :
    b'.Compatible remote where
  names app c name hc hbinds := by
    rw [hsaved] at hc
    refine ⟨(h.names app c name hc hbinds).1, fun j row' hj happ hkind hname => ?_⟩
    rw [hintents, Table.lookup_insert_ite] at hj
    split at hj
    next =>
      cases hj
      rw [hnames hkind app c name happ hc hname] at hbinds
      cases hbinds
    next => exact (h.names app c name hc hbinds).2 j row' hj happ hkind hname
  resources app c resource hc huses j row' hj hkind hresource' := by
    rw [hsaved] at hc
    rw [hintents, Table.lookup_insert_ite] at hj
    split at hj
    next =>
      cases hj
      rw [hresource hkind app c resource hresource' hc] at huses
      cases huses
    next => exact h.resources app c resource hc huses j row' hj hkind hresource'

/-- An update that leaves settled intents as they are. -/
theorem Compatible.modify {g : Intent → Intent} (h : b.Compatible remote)
    (hsaved : ∀ app, b'.saved app = b.saved app) (hintents : b'.intents = b.intents.modify i g)
    (hg : ∀ row, b.intents.lookup i = some row → row.Same (g row) ∧
      (row.kind = .envSet ∨ row.kind = .storageDelete → row.state.settled = true →
        (g row).state = row.state)) :
    b'.Compatible remote := by
  have hold : ∀ {j row'}, b'.intents.lookup j = some row' → ∃ row, b.intents.lookup j = some row ∧
      row.Same row' ∧ (row.kind = .envSet ∨ row.kind = .storageDelete →
        row.state.settled = true → row'.state = row.state) := by
    intro j row' hj
    rw [hintents, Table.lookup_modify] at hj
    split at hj
    next heq =>
      subst heq
      obtain ⟨row, hrow, rfl⟩ := Option.map_eq_some_iff.mp hj
      exact ⟨row, hrow, hg row hrow⟩
    next => exact ⟨row', hj, ⟨rfl, rfl, rfl, rfl, rfl⟩, fun _ _ => rfl⟩
  constructor
  · intro app c name hc hbinds
    rw [hsaved] at hc
    refine ⟨(h.names app c name hc hbinds).1, fun j row' hj happ hkind hname => ?_⟩
    obtain ⟨row, hrow, hsame, hstate⟩ := hold hj
    rw [hsame.app] at happ
    rw [hsame.kind] at hkind
    rw [hsame.names] at hname
    have hsettled := (h.names app c name hc hbinds).2 j row hrow happ hkind hname
    rw [hstate (.inl hkind) hsettled]
    exact hsettled
  · intro app c resource hc huses j row' hj hkind hresource
    rw [hsaved] at hc
    obtain ⟨row, hrow, hsame, hstate⟩ := hold hj
    rw [hsame.kind] at hkind
    rw [hsame.resource] at hresource
    have hsettled := h.resources app c resource hc huses j row hrow hkind hresource
    rw [hstate (.inr hkind) hsettled.1]
    exact hsettled

end Board

end Broker
end OpenstackPlatform
