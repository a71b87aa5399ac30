import OpenstackPlatform.Broker.Compatible

/-!
# Bindings, variables and storage deletion along a run

`Seen` relates what a save has read of the controller to what the controller lists now: whatever it
lists since is announced by an unsettled intent, which the save finds when it checks.  With it every
timely step keeps `Deployment.Good`, and `compatible_run` follows.
-/

namespace OpenstackPlatform
namespace Broker

open Library

/-- What a save under way has read. -/
structure Seen (intents : Table IntentId Intent) (remote : Remote) (saving : Saving) : Prop where
  resources : ∀ resource type, (resource, type) ∈ saving.resources →
    (∃ found, remote.resources.lookup resource = some found ∧ found.app = saving.app) ∧
      ∀ i row, intents.lookup i = some row → row.kind = .storageDelete →
        row.resource = some resource → row.state ≠ .succeeded
  keys : ∀ names, saving.keys = some names → ∀ name, (saving.app, name) ∈ remote.keys →
    name ∈ names ∨ ∃ i row, intents.lookup i = some row ∧ row.app = some saving.app ∧
      row.kind = .envSet ∧ name ∈ row.names ∧ row.state.settled = false

/-! ## The check of a save -/

theorem forM_eq_ok {α : Type} {f : α → Except HttpError Unit} {l : List α} {u : Unit} :
    l.forM f = .ok u ↔ ∀ a ∈ l, f a = .ok () := by
  induction l with
  | nil => simp [List.forM, pure, Except.pure]
  | cons a l ih =>
    rw [List.forall_mem_cons]
    show (f a >>= fun _ => l.forM f) = .ok u ↔ _
    rw [bind_eq_ok]
    constructor
    · rintro ⟨⟨⟩, ha, hl⟩
      exact ⟨ha, ih.mp hl⟩
    · rintro ⟨ha, hl⟩
      exact ⟨(), ha, ih.mpr hl⟩

namespace Board

variable {b b' : Board} {remote : Remote}

variable {app : AppId}

theorem setting_eq_false {name : String} (h : b.setting app name = false) (i : IntentId)
    (row : Intent) (hrow : b.intents.lookup i = some row) (happ : row.app = some app)
    (hkind : row.kind = .envSet) (hname : name ∈ row.names) : row.state.settled = true := by
  by_contra hsettled
  obtain ⟨j, row', hfind⟩ := Table.find?_isSome_of_lookup (p := fun _ (row : Intent) =>
    row.app == some app && row.kind == .envSet && !row.state.settled && row.names.contains name)
    hrow (by simp [happ, hkind, hname, hsettled])
  unfold setting at h
  rw [hfind] at h
  cases h

theorem deleting_eq_false {resource : ResourceId} (h : b.deleting app resource = false)
    (i : IntentId) (row : Intent) (hrow : b.intents.lookup i = some row) (happ : row.app = some app)
    (hkind : row.kind = .storageDelete) (hresource : row.resource = some resource) :
    row.state.settled = true := by
  by_contra hsettled
  obtain ⟨j, row', hfind⟩ := Table.find?_isSome_of_lookup (p := fun _ (row : Intent) =>
    row.app == some app && row.kind == .storageDelete && !row.state.settled &&
      row.resource == some resource)
    hrow (by simp [happ, hkind, hresource, hsettled])
  unfold deleting at h
  rw [hfind] at h
  cases h

/-- What `validateBindings` has found out of a configuration that it accepts. -/
theorem validateBindings_ok {resources : List (ResourceId × ResourceType)} {keys : List String}
    {c : Configuration} {u : Unit} (h : b.validateBindings resources keys app c = .ok u) :
    (∀ resource, c.uses resource = true → (∃ type, (resource, type) ∈ resources) ∧
      b.deleting app resource = false) ∧
    ∀ name, c.binds name = true → name ∉ keys ∧ b.setting app name = false := by
  unfold validateBindings at h
  rw [forM_eq_ok] at h
  have hbinding : ∀ binding ∈ c.storageBindings,
      (∃ type, (binding.resource, type) ∈ resources) ∧ b.deleting app binding.resource = false ∧
        ∀ output ∈ binding.outputs, output.2 ∉ keys ∧ b.setting app output.2 = false := by
    intro binding hmem
    have hok := h binding hmem
    simp only [bind_eq_ok, found_eq_ok, require_eq_ok, Bool.not_eq_true', forM_eq_ok] at hok
    obtain ⟨type, htype, -, hdeleting, houtputs⟩ := hok
    obtain ⟨l₁, l₂, hresources, -⟩ := List.lookup_eq_some_iff.mp htype
    refine ⟨⟨type, by rw [hresources]; simp⟩, hdeleting, fun output houtput => ?_⟩
    obtain ⟨-, -, hfree⟩ := houtputs output houtput
    simpa [List.contains_iff_mem] using hfree
  constructor
  · intro resource huses
    obtain ⟨binding, hmem, heq⟩ := List.any_eq_true.mp huses
    obtain rfl := beq_iff_eq.mp heq
    exact ⟨(hbinding binding hmem).1, (hbinding binding hmem).2.1⟩
  · intro name hbinds
    obtain ⟨binding, hmem, hany⟩ := List.any_eq_true.mp hbinds
    obtain ⟨output, houtput, heq⟩ := List.any_eq_true.mp hany
    obtain rfl := beq_iff_eq.mp heq
    exact (hbinding binding hmem).2.2 output houtput

theorem checkAppNotDeleted_ok {row : App} (h : b.checkAppNotDeleted app = .ok row) :
    b.apps.lookup app = some row := by
  simp only [checkAppNotDeleted, bind_eq_ok, found_eq_ok] at h
  obtain ⟨row', hrow, -, -, h⟩ := h
  cases h
  exact hrow

/-- What a save does. -/
theorem save_cases {i : IntentId} {user : UserId} {admin : Bool} {revision : Nat}
    {c : Configuration} (h : b.save i app user admin revision c = some b') :
    ∃ b₁ : Board, b.intents.lookup i = none ∧ b₁.intents = b.intents.insert i
        { user := user, app := some app, kind := .saveConfiguration, controllerKey := i
          portalAdmin := admin } ∧
      b'.intents = b₁.intents.modify i (fun row => { row with state := .succeeded }) ∧
      ∀ app', b'.saved app' = if app' = app then some c else b.saved app' := by
  simp only [save, Option.bind_eq_bind, Option.bind_eq_some_iff, Option.guard_eq_some'] at h
  obtain ⟨row, hrow, -, hrevision, b₁, hrecord, h⟩ := h
  cases h
  obtain ⟨hnone, hsaved, hintents⟩ := record_cases hrecord
  refine ⟨b₁, hnone, hintents, rfl, fun app' => ?_⟩
  have hlookup : b.apps.lookup app = some row := by
    cases hcheck : b.checkAppNotDeleted app with
    | ok row' =>
      rw [hcheck] at hrow
      cases hrow
      exact checkAppNotDeleted_ok hcheck
    | error e =>
      rw [hcheck] at hrow
      exact absurd hrow (by simp [Except.toOption])
  show b₁.saved app' = _
  rw [hsaved]
  show ((b.apps.modify app _).lookup app').bind (fun row' =>
    (b.configurations.insert (app, revision + 1) c).lookup (app', row'.revision)) = _
  rw [Table.lookup_modify]
  split
  next heq =>
    subst heq
    rw [hlookup]
    exact AList.lookup_insert _
  next hne =>
    unfold saved
    congr 1
    funext row'
    exact AList.lookup_insert_ne fun heq => hne (Prod.mk.inj heq).1

/-- An accepted configuration is compatible, and what it binds belongs to its application. -/
theorem compatible_save {saving : Saving} {i : IntentId} {user : UserId} {admin : Bool}
    {revision : Nat} {c : Configuration} {u : Unit} (hcompatible : b.Compatible remote)
    (hbound : b.Bound remote) (hseen : Seen b.intents remote saving)
    (howned : ∀ i row, b.intents.lookup i = some row → row.kind = .storageDelete →
      ∀ resource, row.resource = some resource →
        ∃ found, remote.resources.lookup resource = some found ∧ row.app = some found.app)
    (hread : (c.storageBindings.isEmpty || saving.keys.isSome) = true)
    (hvalid : b.validateBindings saving.resources (saving.keys.getD []) saving.app c = .ok u)
    (h : b.save i saving.app user admin revision c = some b') :
    b'.Compatible remote ∧ b'.Bound remote := by
  obtain ⟨hresources, hnames⟩ := validateBindings_ok hvalid
  obtain ⟨b₁, hnone, hinsert, hmodify, hsaved⟩ := save_cases h
  have hkeys : ∀ name, c.binds name = true → ∃ names, saving.keys = some names ∧ name ∉ names := by
    intro name hbinds
    have hfree := (hnames name hbinds).1
    rcases Bool.or_eq_true_iff.mp hread with hempty | hsome
    · rw [Configuration.binds, List.isEmpty_iff.mp hempty] at hbinds
      cases hbinds
    · obtain ⟨names, hsome⟩ := Option.isSome_iff_exists.mp hsome
      rw [hsome] at hfree
      exact ⟨names, hsome, hfree⟩
  -- the intents of the new tables are the old ones, and the save itself
  have hrows : ∀ {j row'}, b'.intents.lookup j = some row' →
      row'.kind = .saveConfiguration ∨ b.intents.lookup j = some row' := by
    intro j row' hj
    rw [hmodify, Table.lookup_modify] at hj
    split at hj
    next heq =>
      obtain ⟨row, hrow, rfl⟩ := Option.map_eq_some_iff.mp hj
      rw [hinsert, heq, AList.lookup_insert] at hrow
      cases hrow
      exact .inl rfl
    next hne =>
      rw [hinsert, AList.lookup_insert_ne hne] at hj
      exact .inr hj
  refine ⟨⟨?_, ?_⟩, ?_⟩
  · intro app c' name hc hbinds
    rw [hsaved] at hc
    split at hc
    next heq =>
      cases hc
      subst heq
      obtain ⟨names, hsome, hfree⟩ := hkeys name hbinds
      have hsetting := setting_eq_false (hnames name hbinds).2
      refine ⟨fun hlisted => ?_, fun j row' hj happ hkind hname => ?_⟩
      · rcases hseen.keys names hsome name hlisted with hmem | ⟨j, row, hrow, happ, hkind, hname, hopen⟩
        · exact hfree hmem
        · rw [hsetting j row hrow happ hkind hname] at hopen
          cases hopen
      · rcases hrows hj with hother | hj
        · rw [hother] at hkind
          cases hkind
        · exact hsetting j row' hj happ hkind hname
    next =>
      obtain ⟨hlisted, hsettled⟩ := hcompatible.names app c' name hc hbinds
      refine ⟨hlisted, fun j row' hj happ hkind hname => ?_⟩
      rcases hrows hj with hother | hj
      · rw [hother] at hkind
        cases hkind
      · exact hsettled j row' hj happ hkind hname
  · intro app c' resource hc huses j row' hj hkind hresource
    rcases hrows hj with hother | hj
    · rw [hother] at hkind
      cases hkind
    rw [hsaved] at hc
    split at hc
    next heq =>
      cases hc
      subst heq
      obtain ⟨⟨type, hmem⟩, hdeleting⟩ := hresources resource huses
      obtain ⟨⟨found, hfound, happ⟩, hnot⟩ := hseen.resources resource type hmem
      obtain ⟨found', hfound', happ'⟩ := howned j row' hj hkind resource hresource
      cases hfound.symm.trans hfound'
      rw [happ] at happ'
      exact ⟨deleting_eq_false hdeleting j row' hj happ' hkind hresource,
        hnot j row' hj hkind hresource⟩
    next => exact hcompatible.resources app c' resource hc huses j row' hj hkind hresource
  · intro app c' resource hc huses
    rw [hsaved] at hc
    split at hc
    next heq =>
      cases hc
      subst heq
      obtain ⟨⟨type, hmem⟩, -⟩ := hresources resource huses
      exact (hseen.resources resource type hmem).1
    next => exact hbound app c' resource hc huses

end Board

/-! ## What an operation does -/

namespace Remote

/-- An operation that succeeds lists what it sets, and takes away what it deletes. -/
theorem perform_cases (r : Remote) (op : Operation) :
    ∃ keys resources, r.perform op = { r with keys := keys, resources := resources } ∧
      Known.Kept r.resources resources ∧
      (∀ app name, (app, name) ∈ keys → (app, name) ∈ r.keys ∨
        op.kind = .envSet ∧ op.app = some app ∧ name ∈ op.names) ∧
      (op.kind = .storageDelete → ∀ resource found, op.resource = some resource →
        resources.lookup resource = some found → found.removed = true) := by
  unfold perform
  split
  next app hkind happ =>
    refine ⟨_, r.resources, rfl, .refl _, fun app' name hmem => ?_, fun hdelete => ?_⟩
    · rcases List.mem_append.mp hmem with hnew | hold
      · obtain ⟨name', hname', heq⟩ := List.mem_map.mp hnew
        obtain ⟨rfl, rfl⟩ := Prod.mk.inj heq
        exact .inr ⟨hkind, happ, hname'⟩
      · exact .inl hold
    · rw [hkind] at hdelete
      cases hdelete
  next app hkind happ =>
    refine ⟨_, r.resources, rfl, .refl _, fun app' name hmem => .inl (List.mem_of_mem_filter hmem),
      fun hdelete => ?_⟩
    rw [hkind] at hdelete
    cases hdelete
  next resource hkind hresource =>
    refine ⟨r.keys, _, rfl, fun resource' found hfound => ?_, fun app name hmem => .inl hmem,
      fun _ resource' found hsome hfound => ?_⟩
    · rw [Table.lookup_modify]
      split
      next heq =>
        subst heq
        exact ⟨{ found with removed := true }, by rw [hfound, Option.map_some], rfl, fun _ => rfl⟩
      next => exact ⟨found, hfound, rfl, id⟩
    · cases hresource.symm.trans hsome
      rw [Table.lookup_modify, if_pos rfl] at hfound
      obtain ⟨old, -, rfl⟩ := Option.map_eq_some_iff.mp hfound
      rfl
  next hother =>
    refine ⟨r.keys, r.resources, rfl, .refl _, fun app name hmem => .inl hmem,
      fun hkind resource found hsome _ => ?_⟩
    exact absurd hsome fun hsome => hother resource hkind hsome

end Remote

/-! ## Runs -/

/-- Whether an answer on its way rejects an intent for good. -/
def Call.refuses (i : IntentId) : Call → Bool
  | asked _ => false
  | replied flight reply => flight.intent == i && flight.row.polled.isNone && reply.refuses

namespace Deployment

/-- Whether the broker can still hear of an intent: it is not settled, and no rejection of it is on
its way to a dispatch. -/
def listens (d : Deployment) (i : IntentId) : Bool :=
  ((d.journal.board.intents.lookup i).all fun row => !row.state.settled) &&
    (d.calls.find? fun f call =>
      call.refuses i && (d.journal.flights.lookup f).isSome).isNone

/-- Whether a step comes in time: a final write of an `env_set` or a `storage_delete` finds it
unsettled, and the controller gets a new request of an `env_set` while the broker listens. -/
def timely (d : Deployment) : DeploymentLabel → Bool
  | .answer f _ => (d.journal.flights.lookup f).all fun flight =>
    (d.journal.board.intents.lookup flight.intent).all fun row =>
      !(row.kind == .envSet || row.kind == .storageDelete) || !row.state.settled
  | .deliver f _ => (d.calls.lookup f).all fun call =>
    call.flight.row.kind != .envSet ||
      (d.remote.operations.lookup call.flight.row.controllerKey).isSome ||
      d.listens call.flight.intent
  | _ => true

/-- Before the first request: applications, variables and resources, and nothing under way. -/
structure Fresh (d : Deployment) : Prop where
  intents : d.journal.board.intents = ∅
  configurations : d.journal.board.configurations = ∅
  flights : d.journal.flights = ∅
  calls : d.calls = ∅
  saving : d.saving = none
  operations : d.remote.operations = ∅

/-- What a run keeps. -/
structure Good (d : Deployment) : Prop where
  known : Known d.journal.board.intents d.journal.flights d.calls d.remote
  compatible : d.journal.board.Compatible d.remote
  bound : d.journal.board.Bound d.remote
  seen : ∀ saving, d.saving = some saving → Seen d.journal.board.intents d.remote saving

theorem Fresh.good {d : Deployment} (h : d.Fresh) : d.Good where
  known := by
    constructor
    all_goals
      intros
      simp_all [h.intents, h.flights, h.calls, h.operations]
  compatible := by
    have hsaved : ∀ app, d.journal.board.saved app = none := by
      intro app
      unfold Board.saved
      rw [h.configurations]
      simp
    constructor
    all_goals
      intro app c _ hc
      rw [hsaved] at hc
      cases hc
  bound := by
    intro app c _ hc
    unfold Board.saved at hc
    rw [h.configurations] at hc
    simp at hc
  seen saving hsaving := by
    rw [h.saving] at hsaving
    cases hsaving

/-! ### The broker's transactions -/

variable {d d' : Deployment} {b : Board} {i : IntentId}

theorem commit_cases {board : Option Board} (h : d.commit board = some d') :
    d.saving = none ∧ ∃ b, board = some b ∧
      d' = { d with journal := { d.journal with board := b } } := by
  simp only [commit, Option.bind_eq_bind, Option.bind_eq_some_iff, Option.guard_eq_some',
    Option.isNone_iff_eq_none] at h
  obtain ⟨-, hsaving, b, hb, h⟩ := h
  exact ⟨hsaving, b, hb, (Option.some.inj h).symm⟩

/-- A new intent that its admission checked. -/
theorem Good.record {intent : Intent} (h : d.Good) (hsaving : d.saving = none)
    (hrecord : d.journal.board.record i intent = some b) (hkey : intent.controllerKey = i)
    (hkind : intent.kind ≠ .createApp ∧ intent.kind ≠ .appDelete)
    (hnames : intent.kind = .envSet → ∀ app c name, intent.app = some app →
      d.journal.board.saved app = some c → name ∈ intent.names → c.binds name = false)
    (hresource : intent.kind = .storageDelete → ∀ app c resource,
      intent.resource = some resource → d.journal.board.saved app = some c →
        c.uses resource = false)
    (howned : intent.kind = .storageDelete → ∀ resource, intent.resource = some resource →
      ∃ found, d.remote.resources.lookup resource = some found ∧ intent.app = some found.app) :
    Good { d with journal := { d.journal with board := b } } := by
  obtain ⟨hnone, hsaved, hintents⟩ := Board.record_cases hrecord
  constructor
  · show Known b.intents _ _ _
    rw [hintents]
    exact h.known.record _ hnone hkey rfl hkind (by simp) howned
  · exact h.compatible.insert hsaved hintents hnames hresource
  · intro app c resource hc
    rw [hsaved] at hc
    exact h.bound app c resource hc
  · intro saving hsome
    rw [hsaving] at hsome
    cases hsome

/-- An update of an intent. -/
theorem Good.update {g : Intent → Intent} (h : d.Good) (hsaving : d.saving = none)
    (hsaved : ∀ app, b.saved app = d.journal.board.saved app)
    (hintents : b.intents = d.journal.board.intents.modify i g)
    (hg : ∀ row, d.journal.board.intents.lookup i = some row →
      Known.Keeps d.remote i row (g row) ∧
        (row.kind = .envSet ∨ row.kind = .storageDelete → row.state.settled = true →
          (g row).state = row.state)) :
    Good { d with journal := { d.journal with board := b } } := by
  constructor
  · show Known b.intents _ _ _
    rw [hintents]
    exact h.known.modify fun row hrow => (hg row hrow).1
  · exact h.compatible.modify hsaved hintents fun row hrow =>
      ⟨(hg row hrow).1.same, (hg row hrow).2⟩
  · intro app c resource hc
    rw [hsaved] at hc
    exact h.bound app c resource hc
  · intro saving hsome
    rw [hsaving] at hsome
    cases hsome

variable {row : Intent}

theorem Good.keeps_setState (h : d.Good) {state : IntentState}
    (hrow : d.journal.board.intents.lookup i = some row) (hstate : state.settled = false) :
    Known.Keeps d.remote i row { row with state := state } where
  same := ⟨rfl, rfl, rfl, rfl, rfl⟩
  operationId := (h.known.rows i row hrow).2.1
  settles _ hsettled := by
    rw [show state.settled = true from hsettled] at hstate
    cases hstate
  succeeds _ hsucceeded := by
    rw [show state = .succeeded from hsucceeded] at hstate
    exact absurd hstate (by simp [IntentState.settled])

/-- An unsettled intent gets another unsettled state. -/
theorem Good.setState (h : d.Good) (hsaving : d.saving = none) {state : IntentState}
    (hrow : d.journal.board.intents.lookup i = some row) (hopen : row.state.settled = false)
    (hstate : state.settled = false) :
    Good { d with journal := { d.journal with board := d.journal.board.setState i state } } := by
  refine h.update hsaving (fun _ => Board.saved_congr rfl rfl _) rfl fun row' hrow' =>
    ⟨h.keeps_setState hrow' hstate, fun _ hsettled => ?_⟩
  cases hrow.symm.trans hrow'
  rw [hopen] at hsettled
  cases hsettled

theorem Good.resume (h : d.Good) (hsaving : d.saving = none)
    (hresume : d.journal.board.resume i = some b) :
    Good { d with journal := { d.journal with board := b } } := by
  unfold Board.resume at hresume
  split at hresume
  next row hrow =>
    split at hresume
    · cases hresume
    split at hresume
    · cases hresume
    split at hresume
    next hstate =>
      cases hresume
      refine h.setState hsaving hrow ?_ rfl
      rcases hstate with hstate | hstate
      all_goals
        rw [hstate]
        rfl
    next =>
      cases hresume
      exact h
  next => cases hresume

theorem dispatchable_settled {secret : Bool} {now : Nat} (h : row.dispatchable secret now = true) :
    row.state.settled = false := by
  cases hstate : row.state with
  | succeeded => simp [Intent.dispatchable, hstate] at h
  | failed => simp [Intent.dispatchable, hstate] at h
  | prepared => rfl
  | unknown => rfl
  | accepted => rfl
  | blocked => rfl

/-- The tables with a lease on an intent. -/
def leased (b : Board) (i : IntentId) (lease : Nat) : Board :=
  { b with intents := b.intents.modify i fun row => { row with lease := lease } }

/-- A dispatch takes an intent up: it is blocked for review, or its row starts a flight. -/
theorem take_cases {j j' : Journal} {f : Nat} {secret authorized : Bool} {now timeout : Nat}
    (h : j.next (.take f i secret authorized now timeout) = some j') :
    ∃ row, j.board.intents.lookup i = some row ∧ row.dispatchable secret now = true ∧
      j.flights.lookup f = none ∧
      (j' = { j with board := j.board.setState i .blocked } ∨
        j' = { board := leased j.board i (now + timeout + 5),
               flights := j.flights.insert f ⟨i, row⟩ }) := by
  simp only [Journal.next] at h
  split at h
  next row hrow =>
    split at h
    next hguard =>
      rw [Bool.and_eq_true, Option.isNone_iff_eq_none] at hguard
      refine ⟨row, hrow, hguard.1, hguard.2, ?_⟩
      cases h
      unfold Board.take
      split
      · exact .inl rfl
      · exact .inr rfl
    next => cases h
  next => cases h

theorem Good.take {f : Nat} {secret authorized : Bool} {now timeout : Nat} {j : Journal}
    (h : d.Good) (hsaving : d.saving = none)
    (hnext : d.journal.next (.take f i secret authorized now timeout) = some j) :
    Good { d with journal := j, calls := ask d.calls f (j.flights.lookup f) } := by
  obtain ⟨row, hrow, hopen, hnone, rfl | rfl⟩ := take_cases hnext
  · dsimp only
    rw [hnone]
    exact h.setState hsaving hrow (dispatchable_settled hopen) rfl
  · dsimp only
    rw [AList.lookup_insert]
    have hlease : Good { d with
        journal := { d.journal with board := leased d.journal.board i (now + timeout + 5) } } := by
      refine h.update (g := fun row => { row with lease := now + timeout + 5 }) hsaving
        (fun _ => Board.saved_congr rfl rfl _) rfl fun row' hrow' => ⟨⟨?_, ?_, ?_, ?_⟩, ?_⟩
      · exact ⟨rfl, rfl, rfl, rfl, rfl⟩
      · exact (h.known.rows i row' hrow').2.1
      · exact fun _ => .inl
      · exact fun _ => .inl
      · exact fun _ _ => rfl
    refine ⟨?_, hlease.compatible, hlease.bound, hlease.seen⟩
    refine hlease.known.depart { row with lease := now + timeout + 5 } ?_
      ⟨rfl, rfl, rfl, rfl, rfl⟩ (h.known.rows i row hrow).2.1
    show (Table.modify d.journal.board.intents i _).lookup i = _
    rw [Table.lookup_modify, if_pos rfl, hrow, Option.map_some]

/-! ### The final write -/

variable {reply : Option Reply}

theorem answer_eq {flight : Flight} (hcreate : flight.row.kind ≠ .createApp)
    (hdelete : flight.row.kind ≠ .appDelete) :
    b.answer flight reply = b.writeAnswer flight reply := by
  unfold Board.answer
  split
  next hkind _ _ => exact absurd hkind hdelete
  next hkind _ _ => exact absurd hkind hcreate
  next hkind _ _ => exact absurd hkind hcreate
  next => rfl

theorem answered_operationId {key : Nat} (h : (row.answered reply).2 = some key) :
    row.operationId = some key ∨ key = row.controllerKey := by
  unfold Intent.answered at h
  split at h
  next hpolled => exact .inl ((polled_operationId hpolled).trans h)
  next hpolled => exact .inl ((polled_operationId hpolled).trans h)
  next =>
    unfold Intent.afterDelivery at h
    split at h
    · exact .inl h
    split at h
    · split at h
      next hkey => exact .inr (Option.some.inj (h.symm.trans hkey))
      · exact .inl h
    split at h
    · exact .inl h
    split at h
    · exact .inl h
    · exact .inl h
  next => exact .inl h

/-- What a final write sets is what the controller did. -/
theorem Good.keeps_answer {f : Nat} {flight : Flight} (h : d.Good)
    (hflight : d.journal.flights.lookup f = some flight)
    (hreply : ∀ r, reply = some r → d.calls.lookup f = some (.replied flight r))
    (hrow : d.journal.board.intents.lookup flight.intent = some row)
    (hsame : row.Same flight.row)
    (hid : ∀ key, flight.row.operationId = some key → key = flight.intent) :
    Known.Keeps d.remote flight.intent row
      { row with
        state := (flight.row.answered reply).1, operationId := (flight.row.answered reply).2
        lease := 0 } := by
  obtain ⟨hkey, -, hcreate, -⟩ := h.known.rows flight.intent row hrow
  have hcreate' : flight.row.kind ≠ .createApp := by rwa [hsame.kind]
  refine ⟨⟨rfl, rfl, rfl, rfl, rfl⟩, fun key hsome => ?_, fun hkind hsettled => .inr ?_,
    fun hkind hsucceeded => .inr ?_⟩
  · rcases answered_operationId hsome with hold | hnew
    · exact hid key hold
    · rw [hnew, hsame.controllerKey, hkey]
  · intro op hop
    obtain ⟨r, rfl, ⟨hpolled, hrefuses, -⟩ | ⟨key, status, hpolled, hstatus, hsome, hdone, -⟩⟩ :=
      answered_settled _ hcreate' hsettled
    all_goals have htruth := h.known.replies f flight r hflight (hreply r rfl)
    · rw [htruth.refused hpolled (hsame.kind.trans hkind) hrefuses] at hop
      cases hop
    · obtain ⟨op', hop', hstatus'⟩ := htruth.polled key hpolled hstatus status hsome hdone
      cases hop.symm.trans hop'
      rw [hstatus', hdone]
  · replace hsucceeded : (flight.row.answered reply).1 = .succeeded := hsucceeded
    obtain ⟨r, rfl, ⟨-, -, hfailed⟩ | ⟨key, status, hpolled, hstatus, hsome, hdone, hwas⟩⟩ :=
      answered_settled reply hcreate' (by rw [hsucceeded]; rfl)
    · rw [hsucceeded] at hfailed
      cases hfailed
    · obtain ⟨op, hop, hstatus'⟩ := (h.known.replies f flight r hflight (hreply r rfl)).polled key
        hpolled hstatus status hsome hdone
      obtain ⟨row', hrow', hfor, -⟩ := h.known.operations flight.intent op hop
      cases hrow.symm.trans hrow'
      intro resource found hresource hfound
      exact h.known.performed flight.intent op hop (hfor.kind.trans hkind)
        (hstatus'.trans (hwas hsucceeded)) resource found (hfor.resource.trans hresource) hfound

theorem Good.answer {f : Nat} {reply : Option Reply} {j : Journal} (h : d.Good)
    (hsaving : d.saving = none) (htimely : d.timely (.answer f reply) = true)
    (hguard : (reply.all fun reply => (d.journal.flights.lookup f).any fun flight =>
      d.calls.lookup f = some (.replied flight reply)) = true)
    (hnext : d.journal.next (.answer f reply) = some j) : Good { d with journal := j } := by
  obtain ⟨flight, hflight, rfl⟩ := Option.map_eq_some_iff.mp hnext
  obtain ⟨call, hcall, hfor⟩ := h.known.flown f flight hflight
  obtain ⟨hid, row, hrow, hsame⟩ := h.known.asked f call hcall
  rw [hfor] at hid hrow hsame
  obtain ⟨-, -, hcreate, hdelete⟩ := h.known.rows flight.intent row hrow
  rw [← hsame.kind] at hcreate hdelete
  rw [answer_eq hcreate hdelete]
  have hreply : ∀ r, reply = some r → d.calls.lookup f = some (.replied flight r) := by
    rintro r rfl
    rw [hflight] at hguard
    exact of_decide_eq_true hguard
  have hupdate := h.update (b := d.journal.board.writeAnswer flight reply) (i := flight.intent)
    (g := fun row => { row with
      state := (flight.row.answered reply).1, operationId := (flight.row.answered reply).2
      lease := 0 }) hsaving (fun _ => Board.saved_congr rfl rfl _) rfl fun row' hrow' => by
    cases hrow.symm.trans hrow'
    refine ⟨h.keeps_answer hflight hreply hrow hsame hid, fun hkind hsettled => ?_⟩
    simp only [timely, hflight, hrow, Option.all_some] at htimely
    rcases hkind with hkind | hkind
    all_goals
      rw [hkind, hsettled] at htimely
      cases htimely
  exact ⟨hupdate.known.land f, hupdate.compatible, hupdate.bound, hupdate.seen⟩

/-! ### The controller -/

/-- The broker that listens waits for no rejection. -/
theorem listens_refuses (h : d.listens i = true) {f : Nat} {flight flight' : Flight} {reply : Reply}
    (hflight : d.journal.flights.lookup f = some flight')
    (hcall : d.calls.lookup f = some (.replied flight reply)) (hintent : flight.intent = i)
    (hpolled : flight.row.polled = none) : reply.refuses = false := by
  by_contra hrefuses
  unfold listens at h
  rw [Bool.and_eq_true, Option.isNone_iff_eq_none] at h
  have hnone := Table.find?_eq_none.mp h.2 f _ hcall
  simp [Call.refuses, hintent, hpolled, hrefuses, hflight] at hnone

theorem Good.deliver {f : Nat} {verdict : Verdict} (h : d.Good)
    (htimely : d.timely (.deliver f verdict) = true)
    (hnext : d.next (.deliver f verdict) = some d') : d'.Good := by
  simp only [next, Option.bind_eq_bind, Option.bind_eq_some_iff] at hnext
  obtain ⟨call, hcall, hnext⟩ := hnext
  split at hnext
  next flight =>
    obtain ⟨⟨remote, reply⟩, hhandle, hnext⟩ := Option.bind_eq_some_iff.mp hnext
    cases hnext
    obtain ⟨hid, row, hrow, hsame⟩ := h.known.asked f _ hcall
    replace hrow : d.journal.board.intents.lookup flight.intent = some row := hrow
    have hkey : flight.row.controllerKey = flight.intent :=
      hsame.controllerKey.trans (h.known.rows flight.intent row hrow).1
    have htruth := Remote.handle_truthful hhandle hkey hid
    -- the controller changes its operations only
    suffices hremote : Known d.journal.board.intents d.journal.flights d.calls remote ∧
        remote.keys = d.remote.keys ∧ remote.resources = d.remote.resources by
      obtain ⟨hknown, hkeys, hresources⟩ := hremote
      refine ⟨hknown.reply hcall htruth, ⟨?_, h.compatible.resources⟩, ?_, ?_⟩
      · intro app c name hc hbinds
        show (app, name) ∉ remote.keys ∧ _
        rw [hkeys]
        exact h.compatible.names app c name hc hbinds
      · intro app c resource hc huses
        show ∃ found, remote.resources.lookup resource = some found ∧ _
        rw [hresources]
        exact h.bound app c resource hc huses
      · intro saving hsaving
        have hseen := h.seen saving hsaving
        constructor
        · intro resource type hmem
          show (∃ found, remote.resources.lookup resource = some found ∧ _) ∧ _
          rw [hresources]
          exact hseen.resources resource type hmem
        · intro names hnames name hlisted
          replace hlisted : (saving.app, name) ∈ remote.keys := hlisted
          rw [hkeys] at hlisted
          exact hseen.keys names hnames name hlisted
    rcases Remote.handle_cases hhandle with rfl | ⟨op, hop, hrecovery, rfl⟩ | ⟨hpolled, hnone, rfl⟩
    · exact ⟨h.known, rfl, rfl⟩
    · refine ⟨?_, rfl, rfl⟩
      rw [hkey] at hop ⊢
      obtain ⟨row', hrow', hfor, hopen⟩ := h.known.operations flight.intent op hop
      cases hrow.symm.trans hrow'
      refine h.known.operate hrow ⟨hfor.kind, hfor.app, hfor.names, hfor.resource⟩
        (fun hkind _ => hopen hkind (by rw [hrecovery]; rfl)) (by simp) (fun old hold => ?_)
        fun _ hnone => ?_
      · cases hop.symm.trans hold
        rw [hrecovery]
        rfl
      · rw [hop] at hnone
        cases hnone
    · refine ⟨?_, rfl, rfl⟩
      rw [hkey] at hnone ⊢
      have hlistens : row.kind = .envSet → d.listens flight.intent = true := by
        intro hkind
        have hkind' : flight.row.kind = .envSet := hsame.kind.trans hkind
        simp only [timely, hcall, Option.all_some] at htimely
        replace htimely : (flight.row.kind != .envSet ||
            (d.remote.operations.lookup flight.row.controllerKey).isSome ||
            d.listens flight.intent) = true := htimely
        rw [hkind', hkey, hnone] at htimely
        exact htimely
      refine h.known.operate hrow
        ⟨hsame.kind, hsame.app, hsame.names, hsame.resource⟩ (fun hkind _ => ?_)
        (by simp [Remote.start]) (fun old hold => ?_) fun hkind _ => ?_
      · have hopen := hlistens hkind
        unfold listens at hopen
        rw [hrow, Option.all_some, Bool.and_eq_true] at hopen
        simpa using hopen.1
      · rw [hnone] at hold
        cases hold
      · exact fun f' flight' reply' hflight hreply heq hpolled' =>
          listens_refuses (hlistens hkind) hflight hreply heq hpolled'
  next => cases hnext

theorem Good.progress {key : Nat} {status : OperationStatus} {cleanup : Bool} {remote : Remote}
    (h : d.Good) (hnext : d.remote.progress key status cleanup = some remote) :
    Good { d with remote := remote } := by
  simp only [Remote.progress, Option.bind_eq_bind, Option.bind_eq_some_iff,
    Option.guard_eq_some'] at hnext
  obtain ⟨op, hop, -, hunfinished, hnext⟩ := hnext
  cases hnext
  obtain ⟨row, hrow, hfor, hopen⟩ := h.known.operations key op hop
  obtain ⟨keys, resources, hperform, hkept, hkeys, hremoved⟩ : ∃ keys resources,
      (if status = .succeeded then d.remote.perform op else d.remote) =
        { d.remote with keys := keys, resources := resources } ∧
      Known.Kept d.remote.resources resources ∧
      (∀ app name, (app, name) ∈ keys → (app, name) ∈ d.remote.keys ∨
        op.kind = .envSet ∧ op.app = some app ∧ name ∈ op.names) ∧
      (op.kind = .storageDelete → status = .succeeded → ∀ resource found,
        op.resource = some resource → resources.lookup resource = some found →
          found.removed = true) := by
    split
    next =>
      obtain ⟨keys, resources, heq, hkept, hkeys, hremoved⟩ := d.remote.perform_cases op
      exact ⟨keys, resources, heq, hkept, hkeys, fun hkind _ => hremoved hkind⟩
    next hstatus =>
      exact ⟨d.remote.keys, d.remote.resources, rfl, .refl _, fun _ _ => .inl,
        fun _ hsucceeded => absurd hsucceeded hstatus⟩
  rw [hperform]
  -- a name that is listed now is one that an unsettled intent sets
  have hnew : ∀ app name, (app, name) ∈ keys → (app, name) ∈ d.remote.keys ∨
      (row.app = some app ∧ row.kind = .envSet ∧ name ∈ row.names ∧ row.state.settled = false) := by
    intro app name hlisted
    rcases hkeys app name hlisted with hold | ⟨hkind, happ, hname⟩
    · exact .inl hold
    · have hkind' := hfor.kind.symm.trans hkind
      exact .inr ⟨hfor.app.symm.trans happ, hkind', hfor.names ▸ hname, hopen hkind' hunfinished⟩
  constructor
  · refine (h.known.relist keys hkept).operate hrow
      ⟨hfor.kind, hfor.app, hfor.names, hfor.resource⟩ (fun hkind _ => hopen hkind hunfinished)
      hremoved (fun old hold => ?_) fun _ hnone => ?_
    · cases hop.symm.trans hold
      exact hunfinished
    · rw [hop] at hnone
      cases hnone
  · refine ⟨fun app c name hc hbinds => ?_, h.compatible.resources⟩
    obtain ⟨hlisted, hsettled⟩ := h.compatible.names app c name hc hbinds
    refine ⟨fun hmem => ?_, hsettled⟩
    rcases hnew app name hmem with hold | ⟨happ, hkind, hname, hunsettled⟩
    · exact hlisted hold
    · rw [hsettled key row hrow happ hkind hname] at hunsettled
      cases hunsettled
  · intro app c resource hc huses
    obtain ⟨found, hfound, happ⟩ := h.bound app c resource hc huses
    obtain ⟨found', hfound', happ', -⟩ := hkept resource found hfound
    exact ⟨found', hfound', happ'.trans happ⟩
  · intro saving hsaving
    have hseen := h.seen saving hsaving
    constructor
    · intro resource type hmem
      obtain ⟨⟨found, hfound, happ⟩, hnot⟩ := hseen.resources resource type hmem
      obtain ⟨found', hfound', happ', -⟩ := hkept resource found hfound
      exact ⟨⟨found', hfound', happ'.trans happ⟩, hnot⟩
    · intro names hnames name hmem
      rcases hnew saving.app name hmem with hold | ⟨happ, hkind, hname, hunsettled⟩
      · exact hseen.keys names hnames name hold
      · exact .inr ⟨key, row, hrow, happ, hkind, hname, hunsettled⟩

theorem Good.create {resource : ResourceId} {app : AppId} {type : ResourceType} {remote : Remote}
    (h : d.Good) (hnext : d.remote.create resource app type = some remote) :
    Good { d with remote := remote } := by
  simp only [Remote.create, Option.bind_eq_bind, Option.bind_eq_some_iff, Option.guard_eq_some',
    Option.isNone_iff_eq_none] at hnext
  obtain ⟨-, hnone, hnext⟩ := hnext
  cases hnext
  have hkept : Known.Kept d.remote.resources
      (d.remote.resources.insert resource { app := app, type := type }) := by
    intro resource' found hfound
    refine ⟨found, ?_, rfl, id⟩
    rw [Table.lookup_insert_ite, if_neg]
    · exact hfound
    · rintro rfl
      rw [hnone] at hfound
      cases hfound
  refine ⟨h.known.relist _ hkept, ⟨h.compatible.names, h.compatible.resources⟩, ?_, ?_⟩
  · intro app' c resource' hc huses
    obtain ⟨found, hfound, happ⟩ := h.bound app' c resource' hc huses
    obtain ⟨found', hfound', happ', -⟩ := hkept resource' found hfound
    exact ⟨found', hfound', happ'.trans happ⟩
  · intro saving hsaving
    have hseen := h.seen saving hsaving
    refine ⟨fun resource' type' hmem => ?_, hseen.keys⟩
    obtain ⟨⟨found, hfound, happ⟩, hnot⟩ := hseen.resources resource' type' hmem
    obtain ⟨found', hfound', happ', -⟩ := hkept resource' found hfound
    exact ⟨⟨found', hfound', happ'.trans happ⟩, hnot⟩

/-! ### The reads of a save -/

theorem Good.readStorage {saving : Saving} {resource : ResourceId} {type : ResourceType}
    (h : d.Good) (hsaving : d.saving = some saving)
    (hlisted : d.remote.listed saving.app resource = some type) :
    Good { d with saving := some (saving.seeResource resource type) } := by
  refine ⟨h.known, h.compatible, h.bound, fun saving' hsome => ?_⟩
  cases hsome
  have hseen := h.seen saving hsaving
  refine ⟨fun resource' type' hmem => ?_, hseen.keys⟩
  rcases List.mem_cons.mp hmem with heq | hold
  · obtain ⟨rfl, rfl⟩ := Prod.mk.inj heq
    obtain ⟨found, hfilter, -⟩ := Option.map_eq_some_iff.mp hlisted
    obtain ⟨hfound, hhere⟩ := Option.filter_eq_some_iff.mp hfilter
    rw [Bool.and_eq_true, beq_iff_eq, Bool.not_eq_true'] at hhere
    refine ⟨⟨found, hfound, hhere.1⟩, fun i row hrow hkind hresource hsucceeded => ?_⟩
    rw [h.known.deleted i row hrow hkind hsucceeded resource' found hresource hfound] at hhere
    cases hhere.2
  · exact hseen.resources resource' type' hold

theorem Good.readKeys {saving : Saving} (h : d.Good) (hsaving : d.saving = some saving) :
    Good { d with saving := some (saving.seeKeys (d.remote.listedKeys saving.app)) } := by
  refine ⟨h.known, h.compatible, h.bound, fun saving' hsome => ?_⟩
  cases hsome
  refine ⟨(h.seen saving hsaving).resources, fun names hnames name hlisted => .inl ?_⟩
  cases hnames
  exact List.mem_map.mpr ⟨(saving.app, name), List.mem_filter.mpr ⟨hlisted, beq_self_eq_true _⟩, rfl⟩

theorem Good.save {saving : Saving} {user : UserId} {admin : Bool} {revision : Nat}
    {c : Configuration} {u : Unit} (h : d.Good) (hsaving : d.saving = some saving)
    (hread : (c.storageBindings.isEmpty || saving.keys.isSome) = true)
    (hvalid : d.journal.board.validateBindings saving.resources (saving.keys.getD []) saving.app c =
      .ok u)
    (hsave : d.journal.board.save i saving.app user admin revision c = some b) :
    Good { d with journal := { d.journal with board := b }, saving := none } := by
  obtain ⟨hcompatible, hbound⟩ := Board.compatible_save h.compatible h.bound (h.seen saving hsaving)
    h.known.owned hread hvalid hsave
  obtain ⟨b₁, hnone, hinsert, hmodify, -⟩ := Board.save_cases hsave
  refine ⟨?_, hcompatible, hbound, fun saving' hsome => absurd hsome (by simp)⟩
  have hrecord := h.known.record {
    user := user, app := some saving.app, kind := .saveConfiguration, controllerKey := i
    portalAdmin := admin } hnone rfl rfl (by simp) (by simp) (by simp)
  show Known b.intents _ _ _
  rw [hmodify, hinsert]
  refine hrecord.modify fun row hrow => ?_
  rw [AList.lookup_insert] at hrow
  cases hrow
  exact ⟨⟨rfl, rfl, rfl, rfl, rfl⟩, by simp, by simp, by simp⟩

/-! ### The law -/

/-- What `mutateEnvironment` admits. -/
theorem mutateEnvironment_cases {user : UserId} {app : AppId} {kind : IntentKind} {name : String}
    {admin : Bool} {board : Board}
    (h : (board.mutateEnvironment i user app kind name admin).toOption.join = some b) :
    (∀ c, board.saved app = some c → c.binds name = false) ∧
      board.record i
        { user := user, app := some app, kind := kind, controllerKey := i, portalAdmin := admin
          names := [name] } = some b := by
  cases hresult : board.mutateEnvironment i user app kind name admin with
  | error e =>
    rw [hresult] at h
    exact absurd h (by simp [Except.toOption])
  | ok result =>
    rw [hresult] at h
    simp only [Board.mutateEnvironment, bind_eq_ok, require_eq_ok] at hresult
    obtain ⟨-, hfree, -, -, hresult⟩ := hresult
    cases hresult
    refine ⟨fun c hc => ?_, h⟩
    rw [hc] at hfree
    simpa using hfree

/-- What `deleteStorage` admits. -/
theorem deleteStorage_cases {user : UserId} {app : AppId} {resource : ResourceId} {board : Board}
    (h : (board.deleteStorage i user app resource).toOption.join = some b) :
    (∀ c, board.saved app = some c → c.uses resource = false) ∧
      board.record i
        { user := user, app := some app, kind := .storageDelete, controllerKey := i
          portalAdmin := true, resource := some resource } = some b := by
  cases hresult : board.deleteStorage i user app resource with
  | error e =>
    rw [hresult] at h
    exact absurd h (by simp [Except.toOption])
  | ok result =>
    rw [hresult] at h
    simp only [Board.deleteStorage, bind_eq_ok, require_eq_ok] at hresult
    obtain ⟨-, -, -, hfree, hresult⟩ := hresult
    cases hresult
    refine ⟨fun c hc => ?_, h⟩
    rw [hc] at hfree
    simpa using hfree

/-- **Every timely step keeps what binds apart from what is set and deleted.** -/
theorem step_good {l : DeploymentLabel} (h : d.Good) (htimely : d.timely l = true)
    (hstep : d.step l d') : d'.Good := by
  cases l with
  | environment i user app kind name admin =>
    simp only [step, next, Option.bind_eq_bind, Option.bind_eq_some_iff,
      Option.guard_eq_some'] at hstep
    obtain ⟨-, hkind, hcommit⟩ := hstep
    obtain ⟨hsaving, b, hb, rfl⟩ := commit_cases hcommit
    obtain ⟨hfree, hrecord⟩ := mutateEnvironment_cases hb
    refine h.record hsaving hrecord rfl ?_ (fun _ app' c name' happ hc hname => ?_) ?_ ?_
    · constructor
      all_goals
        rintro rfl
        cases hkind
    · cases happ
      obtain rfl := List.mem_singleton.mp hname
      exact hfree c hc
    all_goals
      rintro rfl
      cases hkind
  | deleteStorage i user app resource =>
    simp only [step, next, Option.bind_eq_bind, Option.bind_eq_some_iff,
      Option.guard_eq_some'] at hstep
    obtain ⟨-, howner, hcommit⟩ := hstep
    obtain ⟨hsaving, b, hb, rfl⟩ := commit_cases hcommit
    obtain ⟨hfree, hrecord⟩ := deleteStorage_cases hb
    obtain ⟨found, hfound, happ⟩ := (Option.any_eq_true _ _).mp howner
    refine h.record hsaving hrecord rfl (by simp) (by simp) ?_ ?_
    · rintro - app' c resource' hsome hc
      cases hsome
      refine Bool.eq_false_iff.mpr fun huses => ?_
      obtain ⟨found', hfound', happ'⟩ := h.bound app' c resource hc huses
      cases hfound.symm.trans hfound'
      rw [← happ', beq_iff_eq.mp happ] at hc
      rw [hfree c hc] at huses
      cases huses
    · rintro - resource' hsome
      cases hsome
      exact ⟨found, hfound, by rw [beq_iff_eq.mp happ]⟩
  | request i intent =>
    simp only [step, next, Option.bind_eq_bind, Option.bind_eq_some_iff,
      Option.guard_eq_some'] at hstep
    obtain ⟨-, hkind, hcommit⟩ := hstep
    obtain ⟨hsaving, b, hb, rfl⟩ := commit_cases hcommit
    have hne : ∀ kind : IntentKind, kind.elsewhere = true → intent.kind ≠ kind := by
      rintro kind helsewhere rfl
      rw [helsewhere] at hkind
      cases hkind
    exact h.record hsaving hb rfl ⟨hne _ rfl, hne _ rfl⟩ (fun heq => absurd heq (hne _ rfl))
      (fun heq => absurd heq (hne _ rfl)) fun heq => absurd heq (hne _ rfl)
  | beginSave app =>
    simp only [step, next, Option.bind_eq_bind, Option.bind_eq_some_iff] at hstep
    obtain ⟨-, -, hstep⟩ := hstep
    cases hstep
    refine ⟨h.known, h.compatible, h.bound, fun saving hsome => ?_⟩
    cases hsome
    exact ⟨by simp, by simp⟩
  | readStorage resource =>
    simp only [step, next, Option.bind_eq_bind, Option.bind_eq_some_iff] at hstep
    obtain ⟨saving, hsaving, type, hlisted, hstep⟩ := hstep
    cases hstep
    exact h.readStorage hsaving hlisted
  | readKeys =>
    simp only [step, next, Option.bind_eq_bind, Option.bind_eq_some_iff] at hstep
    obtain ⟨saving, hsaving, hstep⟩ := hstep
    cases hstep
    exact h.readKeys hsaving
  | save i user admin revision configuration =>
    simp only [step, next, Option.bind_eq_bind, Option.bind_eq_some_iff,
      Option.guard_eq_some'] at hstep
    obtain ⟨saving, hsaving, -, hread, u, hvalid, b, hsave, hstep⟩ := hstep
    cases hstep
    cases hresult : d.journal.board.validateBindings saving.resources (saving.keys.getD [])
        saving.app configuration with
    | ok u => exact h.save hsaving hread hresult hsave
    | error e =>
      rw [hresult] at hvalid
      exact absurd hvalid (by simp [Except.toOption])
  | abandonSave =>
    cases hstep
    exact ⟨h.known, h.compatible, h.bound, fun saving hsome => absurd hsome (by simp)⟩
  | take f i secret authorized now timeout =>
    simp only [step, next, Option.bind_eq_bind, Option.bind_eq_some_iff, Option.guard_eq_some',
      Bool.and_eq_true, Option.isNone_iff_eq_none] at hstep
    obtain ⟨-, ⟨hsaving, -⟩, j, hj, hstep⟩ := hstep
    cases hstep
    exact h.take hsaving hj
  | answer f reply =>
    simp only [step, next, Option.bind_eq_bind, Option.bind_eq_some_iff, Option.guard_eq_some',
      Option.isNone_iff_eq_none] at hstep
    obtain ⟨-, hsaving, -, hguard, j, hj, hstep⟩ := hstep
    cases hstep
    exact h.answer hsaving htimely hguard hj
  | resume i =>
    obtain ⟨hsaving, b, hb, rfl⟩ := commit_cases hstep
    exact h.resume hsaving hb
  | deliver f verdict => exact h.deliver htimely hstep
  | progress key status cleanup =>
    obtain ⟨remote, hremote, rfl⟩ := Option.map_eq_some_iff.mp hstep
    exact h.progress hremote
  | create resource app type =>
    obtain ⟨remote, hremote, rfl⟩ := Option.map_eq_some_iff.mp hstep
    exact h.create hremote

/-- **Bindings, variables and storage deletion stay compatible.**  Along every run whose steps come in
time, whatever is lost, repeated or delayed, no saved configuration binds a variable, a name that an
unsettled `env_set` sets, or a resource with an unsettled or succeeded `storage_delete`. -/
theorem compatible_run {ls : List DeploymentLabel} (hfresh : d.Fresh)
    (h : Run (restrict step fun d l => d.timely l = true) d ls d') :
    d'.journal.board.Compatible d'.remote := by
  have hgood : d'.Good := h.invariant hfresh.good fun _ _ _ hgood hstep =>
    step_good hgood hstep.2 hstep.1
  exact hgood.compatible

/-- An application with a PostgreSQL resource. -/
def sample : Deployment where
  journal := { board := { apps := AList.insert 10 { owner := 5, lifecycle := .ready } ∅ } }
  remote := { resources := AList.insert 7 { app := 10, type := .postgres } ∅ }

theorem sample_fresh : sample.Fresh := ⟨rfl, rfl, rfl, rfl, rfl, rfl⟩

/-- A request that is admitted, performed and observed at once. -/
def served (f : Nat) (i : IntentId) (now : Nat) : List DeploymentLabel :=
  [.take f i true true now 5, .deliver f .serve,
    .answer f (some { status := 202, operationId := some i }), .progress i .succeeded true,
    .take (f + 1) i false true (now + 1) 5, .deliver (f + 1) .serve,
    .answer (f + 1) (some
      { status := 200, operationId := some i, operationStatus := some .succeeded
        scope := some (.app (some 10)), cleanupSettled := true })]

/-- A variable is set, by other dispatches than `late`, and deleted, and its name is bound. -/
def rebound (late : List DeploymentLabel) (now : Nat) : List DeploymentLabel :=
  .environment 1 5 10 .envSet "URL" false :: late ++ served 101 1 now ++
    .environment 2 5 10 .envDelete "URL" false :: served 103 2 (now + 2) ++
    [.beginSave 10, .readStorage 7, .readKeys,
      .save 3 5 false 0 { storageBindings := [{ resource := 7, outputs := [("url", "URL")] }] }]

theorem compatible_run_rebound : ∃ ls d, Run (restrict step fun d l => d.timely l = true) sample ls d ∧
    (d.journal.board.saved 10).any (fun c => c.binds "URL") = true ∧
      d.journal.board.Compatible d.remote := by
  obtain ⟨d, hrun, hsaved⟩ := Option.map_eq_some_iff.mp
    (by decide +kernel : (((rebound [] 10).foldlM
      (fun (d : Deployment) l => if d.timely l then d.next l else none) sample).map fun d =>
        (d.journal.board.saved 10).any (fun c => c.binds "URL")) = some true)
  have hrun' : Run (restrict step fun d l => d.timely l = true) sample (rebound [] 10) d := by
    refine (Run.of_foldlM hrun).mono fun k l k' hnext => ?_
    split at hnext
    next htimely => exact ⟨hnext, htimely⟩
    next => cases hnext
  exact ⟨_, d, hrun', hsaved, compatible_run sample_fresh hrun'⟩

/-- The first dispatch outlives its lease, and its answer comes at the end. -/
def outlived : List DeploymentLabel :=
  rebound [.take 100 1 true true 0 5] 10 ++
    [.deliver 100 .serve, .answer 100 (some { status := 202, operationId := some 1 })]

/-- **A late answer sets a bound name again.**  The first dispatch of an `env_set` outlives its lease;
the variable is set, deleted, and its name bound; then the controller answers the first request, whose
final write makes the `env_set` unsettled again. -/
theorem bound_name_set : ∃ ls d, Run step sample ls d ∧ ¬ d.journal.board.Compatible d.remote := by
  obtain ⟨d, hrun, hd⟩ := Option.map_eq_some_iff.mp
    (by decide +kernel : ((outlived.foldlM next sample).map fun d =>
      (d.journal.board.saved 10).any (fun c => c.binds "URL") &&
        (d.journal.board.intents.lookup 1).any fun row => row.app == some 10 &&
          row.kind == .envSet && row.names.contains "URL" && !row.state.settled) = some true)
  rw [Bool.and_eq_true, Option.any_eq_true, Option.any_eq_true] at hd
  obtain ⟨⟨c, hc, hbinds⟩, row, hrow, hopen⟩ := hd
  simp only [Bool.and_eq_true, beq_iff_eq, Bool.not_eq_true', List.contains_iff_mem] at hopen
  obtain ⟨⟨⟨happ, hkind⟩, hname⟩, hunsettled⟩ := hopen
  refine ⟨_, d, Run.of_foldlM hrun, fun hcompatible => ?_⟩
  rw [(hcompatible.names 10 c "URL" hc hbinds).2 1 row hrow happ hkind hname] at hunsettled
  cases hunsettled

end Deployment
end Broker
end OpenstackPlatform
