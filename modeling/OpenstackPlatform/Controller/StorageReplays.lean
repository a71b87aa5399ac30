import OpenstackPlatform.Controller.Storage

/-!
# Replays of stopped storage operations

A storage operation that stopped between two transactions or helper calls, and what the same
request does with it.

`Underway` describes the states between which an operation moves: it is running, the types it lists
as completed and the ones still to be done make up its selection, and the calls that reached the
helper are about completed types or the first of the others.  Every transaction of every action
keeps it (`always_each`), so it describes every stop, and from it the rest of the operation runs
through (`always_mutate`) with calls that can be listed beforehand (`callsOf`).
-/

namespace OpenstackPlatform
namespace Controller
namespace Storage

open Library

variable {config : Config} {request : Request} {chosen completed pending rest : List ResourceType}
  {w t u : World} {type : ResourceType} {recovering : Bool}

/-! ## The helper -/

/-- An answer with which the action of a call goes on. -/
structure Accepts (config : Config) (c : Call) (reply : Reply) : Prop where
  index : ∀ index, reply.modifyIndex = some index → 0 ≤ index
  created : c.action = .create → reply.evidenceAccepted = true ∧ ∃ providerId,
    identityResult reply = .ok (providerId, providerName config c.type c.resourceName) ∧
      (c.type ≠ .s3 → providerId = providerName config c.type c.resourceName)
  verified : c.action = .verify → reply.verified = true
  rotated : c.action = .rotate → reply.evidenceAccepted = true ∧ reply.retired = true ∧
    reply.credentialName.any validIdentity = true ∧ ∃ providerId,
      c.providerId = some providerId ∧ identityResult reply = .ok (providerId, c.providerName)
  accepted : c.action = .remove → c.preflight = true → reply.preflightAccepted = true
  removed : c.action = .remove → c.preflight = false →
    reply.confirmedAbsent = true ∧ reply.environmentRemoved = true

/-- A provider identity that the helper has confirmed before. -/
def Provided (providerId : Option String) (name : String) : Prop :=
  ∃ id, providerId = some id ∧ validIdentity id = true ∧ validIdentity name = true

/-- The helper is idempotent per operation ID and type: it does what a call of the request asks for
unless the call is a second one about its type that is not marked as a recovery. -/
def Idempotent (config : Config) (request : Request) : Prop :=
  ∀ earlier c, c.operationId = request.operationId → c.resourceName = request.resourceName →
    (c.action ≠ .create → Provided c.providerId c.providerName) →
    (c.recover = true ∨ c.preflight = true ∨ ∀ e ∈ earlier, e.operationId = c.operationId →
      e.type = c.type → e.preflight = true) →
    ∃ reply, config.helper earlier c = .ok reply ∧ Accepts config c reply

/-! ## States of an operation -/

/-- What holds of a request besides the state it finds. -/
structure Terms (config : Config) (request : Request) (chosen : List ResourceType) : Prop where
  helper : Idempotent config request
  selected : selected request.types = .ok chosen
  confirmed : checkConfirmed request = .ok ()
  finishing : config.finishingAdmits request.action.kind = true
  capacity : request.action = .create → ∀ type ∈ chosen, config.admits type = true
  unreferenced : request.action = .remove → ∀ type ∈ chosen, config.referenced type = false

/-- The running operation of a request, with the types it lists as completed. -/
structure Operation.Of (op : Operation) (request : Request) (chosen completed : List ResourceType) :
    Prop where
  status : op.status = .running
  operationId : op.operationId = request.operationId
  kind : op.kind = request.action.kind
  resourceName : op.refs.resourceName = request.resourceName
  purgeS3 : op.refs.purgeS3 = request.purge
  selected : op.refs.selected = chosen
  completed : op.refs.completed = completed

/-- The types whose rows have to be there: all of them for a verification or a rotation, and for a
removal the ones behind the one it works on. -/
def Request.kept (request : Request) (chosen pending : List ResourceType) : List ResourceType :=
  match request.action with
  | .create => []
  | .verify | .rotate => chosen
  | .remove => pending.tail

/-- The operation of a request stands between two transactions, with `pending` still to be done. -/
structure Underway (request : Request) (chosen completed pending : List ResourceType) (w : World) :
    Prop where
  operation : ∃ op, w.operation = some op ∧ op.Of request chosen completed
  split : completed ++ pending = chosen
  provided : request.action ≠ .create → ∀ type ∈ pending, ∀ row,
    w.resources.lookup type = some row → Provided row.providerId row.providerName
  present : ∀ type ∈ request.kept chosen pending, (w.resources.lookup type).isSome = true
  calls : ∀ c ∈ w.calls, c.operationId = request.operationId → c.preflight = false →
    c.type ∈ completed ∨ pending.head? = some c.type

/-- The rows of the types still to be done are there. -/
def Whole (request : Request) (pending : List ResourceType) (w : World) : Prop :=
  request.action ≠ .create → ∀ type ∈ pending, (w.resources.lookup type).isSome = true

/-- The operation of a request has succeeded. -/
def Succeeded (request : Request) (w : World) : Prop :=
  ∃ op, w.operation = some op ∧ op.operationId = request.operationId ∧ op.status = .succeeded

/-- What a stop of an operation that has begun leaves behind. -/
def Halted (request : Request) (chosen : List ResourceType) (w : World) : Prop :=
  (∃ completed pending, Underway request chosen completed pending w) ∨ Succeeded request w

/-- No call of the request about one of the types, preflights apart, has reached the helper. -/
def Untouched (request : Request) (pending : List ResourceType) (w : World) : Prop :=
  ∀ c ∈ w.calls, c.operationId = request.operationId → c.preflight = false → c.type ∉ pending

/-- What a call says about its type. -/
def Call.key (c : Call) : ResourceType × Bool × Bool := (c.type, c.preflight, c.recover)

/-- The calls about one type: a removal has a preflight for each type still to be done. -/
def roundOf (action : Action) (recovering : Bool) (type : ResourceType)
    (rest : List ResourceType) : List (ResourceType × Bool × Bool) :=
  (if action = .remove then (type :: rest).map fun other => (other, true, recovering) else []) ++
    [(type, false, recovering)]

/-- The calls about the types still to be done, in order. -/
def callsOf (action : Action) : Bool → List ResourceType → List (ResourceType × Bool × Bool)
  | _, [] => []
  | recovering, type :: rest => roundOf action recovering type rest ++ callsOf action false rest

/-! ## Transactions -/

variable {op : Operation}

theorem Operation.Of.unfinished (h : op.Of request chosen completed) (hw : w.operation = some op) :
    w.unfinished = some op := by
  simp [World.unfinished, hw, h.status, OperationStatus.nonterminal]

theorem Underway.halted (h : Underway request chosen completed pending w) :
    Halted request chosen w :=
  .inl ⟨completed, pending, h⟩

/-- What the transactions and calls for one type do together. -/
structure Moved (request : Request) (chosen completed : List ResourceType) (type : ResourceType)
    (rest : List ResourceType) (w t : World) (new : List Call) : Prop where
  underway : Underway request chosen completed (type :: rest) t
  calls : t.calls = w.calls ++ new
  frame : ∀ other, other ≠ type → t.resources.lookup other = w.resources.lookup other
  kept : type ∈ request.kept chosen (type :: rest) → (w.resources.lookup type).isSome = true →
    (t.resources.lookup type).isSome = true

theorem Moved.refl (h : Underway request chosen completed (type :: rest) w) :
    Moved request chosen completed type rest w w [] :=
  ⟨h, (List.append_nil _).symm, fun _ _ => rfl, fun _ => id⟩

theorem Moved.trans {new new' : List Call} (h : Moved request chosen completed type rest w t new)
    (h' : Moved request chosen completed type rest t u new') :
    Moved request chosen completed type rest w u (new ++ new') where
  underway := h'.underway
  calls := by rw [h'.calls, h.calls, List.append_assoc]
  frame other hother := (h'.frame other hother).trans (h.frame other hother)
  kept hmem hsome := h'.kept hmem (h.kept hmem hsome)

/-- A program for one type that returns a value in `A`, with its calls. -/
abbrev Advances {α : Type} (request : Request) (chosen completed : List ResourceType)
    (type : ResourceType) (rest : List ResourceType) (p : Prog α) (w : World)
    (A : α → List Call → World → Prop) : Prop :=
  p.Always w (Halted request chosen) fun r t =>
    ∃ a, r = .ok a ∧ ∃ new, Moved request chosen completed type rest w t new ∧ A a new t

variable {α : Type}

theorem Underway.advances_bind {β : Type} {p : Prog α} {f : α → Prog β}
    {A : α → List Call → World → Prop} {B : β → List Call → World → Prop}
    (hp : Advances request chosen completed type rest p w A)
    (hf : ∀ a new t, Moved request chosen completed type rest w t new → A a new t →
      Advances request chosen completed type rest (f a) t fun b new' u => B b (new ++ new') u) :
    Advances request chosen completed type rest (p >>= f) w B := by
  refine Program.always_bind_of_ok hp fun a t ⟨new, hmoved, ha⟩ => ?_
  refine (hf a new t hmoved ha).mono (fun _ hu => hu) ?_
  rintro r u ⟨b, rfl, new', hmoved', hb⟩
  exact ⟨b, rfl, new ++ new', hmoved.trans hmoved', hb⟩

theorem Underway.advances_pure {a : α} {A : α → List Call → World → Prop}
    (h : Underway request chosen completed (type :: rest) w) (ha : A a [] w) :
    Advances request chosen completed type rest (pure a) w A :=
  Program.always_pure ⟨a, rfl, [], Moved.refl h, ha⟩

theorem Underway.advances_inspect {a : α} {f : World → Except Error α}
    {A : α → List Call → World → Prop} (h : Underway request chosen completed (type :: rest) w)
    (hf : f w = .ok a) (ha : A a [] w) :
    Advances request chosen completed type rest (Program.inspect f) w A :=
  Program.always_inspect ⟨a, hf, [], Moved.refl h, ha⟩

theorem Underway.advances_tryCatch {p : Prog α} {handler : Error → Prog α}
    {A : α → List Call → World → Prop}
    (h : Advances request chosen completed type rest p w A) :
    Advances request chosen completed type rest (p.tryCatch handler) w A := by
  refine Program.always_tryCatch_of_ok (h.mono (fun _ hu => hu) ?_)
  rintro r u ⟨a, rfl, hr⟩
  exact ⟨⟨a, rfl⟩, a, rfl, hr⟩

variable {merge : Refs → Refs} {A : Unit → List Call → World → Prop}

/-- A checkpoint that keeps the operation's selection and completed types. -/
theorem Underway.advances_checkpoint (h : Underway request chosen completed (type :: rest) w)
    {phase : String} (hmerge : ∀ op : Operation, op.Of request chosen completed →
      Operation.Of { op with phase := phase, refs := merge op.refs } request chosen completed)
    (hA : ∀ t, t.resources = w.resources → A () [] t) :
    Advances request chosen completed type rest
      (checkpointOperation request.operationId phase merge) w A := by
  obtain ⟨op, hop, hof⟩ := h.operation
  have hnext : Underway request chosen completed (type :: rest)
      { w with operation := some { op with phase := phase, refs := merge op.refs } } :=
    ⟨⟨_, rfl, hmerge op hof⟩, h.split, h.provided, h.present, h.calls⟩
  refine Program.always_commit_of_ok ?_ hnext.halted
    ⟨(), rfl, [], ⟨hnext, (List.append_nil _).symm, fun _ _ => rfl, fun _ => id⟩, hA _ rfl⟩
  simp [hof.unfinished hop, hof.operationId]

/-- A transaction on the row and the keys of the type that is worked on. -/
theorem Underway.advances_rows (h : Underway request chosen completed (type :: rest) w)
    {f : World → Except Error World} (resources : Table ResourceType ManagedResource)
    (keys : Table ResourceType (List String))
    (hf : f w = .ok { w with resources := resources, environmentKeys := keys })
    (hframe : ∀ other, other ≠ type → resources.lookup other = w.resources.lookup other)
    (hkept : type ∈ request.kept chosen (type :: rest) →
      (w.resources.lookup type).isSome = true → (resources.lookup type).isSome = true)
    (hrow : request.action ≠ .create → ∀ row, resources.lookup type = some row →
      Provided row.providerId row.providerName)
    (hA : A () [] { w with resources := resources, environmentKeys := keys }) :
    Advances request chosen completed type rest (Program.commit f) w A := by
  have hnext : Underway request chosen completed (type :: rest)
      { w with resources := resources, environmentKeys := keys } := by
    refine ⟨h.operation, h.split, ?_, ?_, h.calls⟩
    · intro hcreate other hother row hlookup
      by_cases hother' : other = type
      · subst hother'
        exact hrow hcreate row hlookup
      · rw [hframe other hother'] at hlookup
        exact h.provided hcreate other hother row hlookup
    · intro other hother
      have hsome := h.present other hother
      by_cases hother' : other = type
      · subst hother'
        exact hkept hother hsome
      · show (resources.lookup other).isSome = true
        rw [hframe other hother']
        exact hsome
  exact Program.always_commit_of_ok hf hnext.halted
    ⟨(), rfl, [], ⟨hnext, (List.append_nil _).symm, hframe, hkept⟩, hA⟩

/-- `_put_resource` of the type that is worked on. -/
theorem Underway.advances_put (h : Underway request chosen completed (type :: rest) w)
    {lifecycle : Lifecycle} {providerId : Option String} {name : String}
    {existing : Option ManagedResource}
    (hfits : w.resources.lookup type = none → config.admits type = true)
    (hprovided : request.action ≠ .create → Provided providerId name) (hA : ∀ t, A () [] t) :
    Advances request chosen completed type rest
      (putResource config type lifecycle providerId name existing) w A := by
  have hinsert : ∀ f : World → Except Error World, (∃ row : ManagedResource,
      f w = .ok { w with resources := w.resources.insert type row } ∧
        row.providerId = providerId ∧ row.providerName = name) →
      Advances request chosen completed type rest (Program.commit f) w A := by
    rintro f ⟨row, hf, rfl, rfl⟩
    refine h.advances_rows _ _ hf (fun other hother => ?_) (fun _ _ => ?_)
      (fun hcreate row' hrow' => ?_) (hA _)
    · exact AList.lookup_insert_ne hother
    · rw [AList.lookup_insert]
      rfl
    · rw [AList.lookup_insert] at hrow'
      cases hrow'
      exact hprovided hcreate
  refine hinsert _ ?_
  cases hlookup : w.resources.lookup type with
  | some row =>
    refine ⟨_, rfl, ?_, ?_⟩
    · rfl
    · rfl
  | none =>
    simp only [hfits hlookup, Bool.not_true, Bool.and_false, Bool.false_eq_true, if_false]
    refine ⟨_, rfl, ?_, ?_⟩
    · rfl
    · rfl

theorem Underway.advances_keys (h : Underway request chosen completed (type :: rest) w)
    {keys : List String} (hA : ∀ t, A () [] t) :
    Advances request chosen completed type rest (setEnvironmentKeys type keys) w A :=
  h.advances_rows w.resources (w.environmentKeys.insert type keys) rfl (fun _ _ => rfl) (fun _ => id)
    (fun hcreate row hrow => h.provided hcreate type List.mem_cons_self row hrow) (hA _)

theorem Underway.advances_instance (h : Underway request chosen completed (type :: rest) w)
    {reply : Reply} (hA : ∀ t, A () [] t) :
    Advances request chosen completed type rest (putInstance type reply) w A := by
  unfold putInstance
  split
  next port =>
    refine h.advances_rows (w.resources.modify type _) _ rfl (fun other hother => ?_)
      (fun _ hsome => ?_) (fun hcreate row hrow => ?_) (hA _)
    · rw [Table.lookup_modify, if_neg hother]
    · rw [Table.lookup_modify, if_pos rfl, Option.isSome_map]
      exact hsome
    · rw [Table.lookup_modify, if_pos rfl] at hrow
      obtain ⟨old, hold, rfl⟩ := Option.map_eq_some_iff.mp hrow
      exact h.provided hcreate type List.mem_cons_self old hold
  next => exact h.advances_pure (hA _)

/-- A call: it is answered when it is a preflight, a recovery or the first one about its type. -/
theorem Underway.advances_call (terms : Terms config request chosen)
    (h : Underway request chosen completed (type :: rest) w) {c : Call}
    {A : Reply → List Call → World → Prop} (hid : c.operationId = request.operationId)
    (hname : c.resourceName = request.resourceName)
    (htype : c.preflight = true ∨ c.type = type)
    (hprovided : c.action ≠ .create → Provided c.providerId c.providerName)
    (hfirst : c.recover = true ∨ c.preflight = true ∨ Untouched request [type] w)
    (hA : ∀ reply t, t.resources = w.resources → Accepts config c reply → A reply [c] t) :
    Advances request chosen completed type rest (call config c) w A := by
  obtain ⟨reply, hreply, haccepts⟩ := terms.helper w.calls c hid hname hprovided (by
    obtain hrecover | hpre | huntouched := hfirst
    · exact .inl hrecover
    · exact .inr (.inl hpre)
    · obtain hpre | rfl := htype
      · exact .inr (.inl hpre)
      refine .inr (.inr fun e he heid hetype => ?_)
      by_contra hpre
      exact huntouched e he (heid.trans hid) (Bool.eq_false_iff.mpr hpre)
        (List.mem_singleton.mpr hetype))
  have hnext : Underway request chosen completed (type :: rest)
      { w with calls := w.calls ++ [c] } := by
    refine ⟨h.operation, h.split, h.provided, h.present, fun e he heid hepre => ?_⟩
    obtain he | he := List.mem_append.mp he
    · exact h.calls e he heid hepre
    · obtain rfl := List.mem_singleton.mp he
      obtain hpre | rfl := htype
      · rw [hpre] at hepre
        cases hepre
      · exact .inr rfl
  unfold call
  refine Program.always_bind_of_ok (A := fun earlier t => earlier = w.calls ∧ t = w)
    (Program.always_read ⟨_, rfl, rfl, rfl⟩) ?_
  rintro earlier t ⟨rfl, rfl⟩
  refine Program.always_bind_of_ok (A := fun _ u => u = { t with calls := t.calls ++ [c] })
    (Program.always_commit_of_ok rfl hnext.halted ⟨(), rfl, rfl⟩) ?_
  rintro _ u rfl
  refine Program.always_inspect ⟨reply, ?_, [c], ⟨hnext, rfl, fun _ _ => rfl, fun _ => id⟩,
    hA reply _ rfl haccepts⟩
  rw [hreply]
  rfl

/-- The ModifyIndex of an answer is recorded. -/
theorem Underway.advances_index (h : Underway request chosen completed (type :: rest) w)
    {phase : String} {reply : Reply} (hindex : ∀ index, reply.modifyIndex = some index → 0 ≤ index)
    (hmerge : ∀ (op : Operation) (index : Option Nat), op.Of request chosen completed →
      Operation.Of { op with phase := phase, refs := { merge op.refs with modifyIndex := index } }
        request chosen completed)
    (hA : ∀ t, t.resources = w.resources → A () [] t) :
    Advances request chosen completed type rest
      (checkpointObservedIndex request.operationId phase merge reply) w A := by
  unfold checkpointObservedIndex
  split
  next => exact h.advances_pure (hA _ rfl)
  next index heq => exact h.advances_checkpoint (fun op hop => hmerge op _ hop) hA
  next index heq =>
    exact absurd (hindex _ heq) (by omega)

theorem Moved.untouched (h : Moved request chosen completed type rest w t [])
    (hw : Untouched request pending w) : Untouched request pending t := by
  intro c hc
  rw [h.calls, List.append_nil] at hc
  exact hw c hc

/-! ## One type -/

/-- One type is done. -/
structure Done (request : Request) (chosen completed : List ResourceType) (type : ResourceType)
    (rest : List ResourceType) (recovering : Bool) (w t : World) : Prop where
  underway : Underway request chosen (completed ++ [type]) rest t
  whole : Whole request rest t
  untouched : Untouched request rest t
  calls : ∃ new, t.calls = w.calls ++ new ∧
    new.map Call.key = roundOf request.action recovering type rest

theorem Moved.always_bind {β : Type} {p : Prog α} {f : α → Prog β} {new : List Call}
    {A : α → List Call → World → Prop} {R : Except Error β → World → Prop}
    (hmoved : Moved request chosen completed type rest w t new)
    (hp : Advances request chosen completed type rest p t A)
    (hf : ∀ a new' u, Moved request chosen completed type rest w u (new ++ new') → A a new' u →
      (f a).Always u (Halted request chosen) R) :
    (p >>= f).Always t (Halted request chosen) R :=
  Program.always_bind_of_ok hp fun a u ⟨new', hmoved', ha⟩ =>
    hf a new' u (hmoved.trans hmoved') ha

/-- The rows behind the type that is worked on are there. -/
theorem Underway.whole (h : Underway request chosen completed (type :: rest) w) :
    Whole request rest w := by
  intro hcreate other hother
  have hchosen : other ∈ chosen := by
    rw [← h.split]
    simp [hother]
  refine h.present other ?_
  cases haction : request.action with
  | create => exact absurd haction hcreate
  | verify => simpa [Request.kept, haction] using hchosen
  | rotate => simpa [Request.kept, haction] using hchosen
  | remove => simpa [Request.kept, haction] using hother

/-- The checkpoint after a type. -/
theorem Moved.always_done {new : List Call} (hnodup : chosen.Nodup)
    (hmoved : Moved request chosen completed type rest w t new)
    (hkeys : new.map Call.key = roundOf request.action recovering type rest)
    {phase : String} (hmerge : ∀ op : Operation, op.Of request chosen completed →
      Operation.Of { op with phase := phase, refs := merge op.refs } request chosen
        (completed ++ [type])) :
    (checkpointOperation request.operationId phase merge).Always t (Halted request chosen)
      fun r u => ∃ a, r = .ok a ∧ Done request chosen completed type rest recovering w u := by
  have h := hmoved.underway
  obtain ⟨op, hop, hof⟩ := h.operation
  have hwhole := h.whole
  rw [← h.split, List.nodup_append] at hnodup
  have hcalls : ∀ c ∈ t.calls, c.operationId = request.operationId → c.preflight = false →
      c.type ∈ completed ++ [type] := by
    intro c hc hid hpre
    obtain hdone | hhead := h.calls c hc hid hpre
    · exact List.mem_append_left _ hdone
    · cases hhead
      simp
  have hnext : Underway request chosen (completed ++ [type]) rest
      { t with operation := some { op with phase := phase, refs := merge op.refs } } := by
    refine ⟨⟨_, rfl, hmerge op hof⟩, ?_, ?_, ?_, fun c hc hid hpre => .inl (hcalls c hc hid hpre)⟩
    · rw [List.append_assoc]
      exact h.split
    · exact fun hcreate other hother => h.provided hcreate other (List.mem_cons_of_mem _ hother)
    · intro other hother
      cases haction : request.action with
      | create => simp [Request.kept, haction] at hother
      | verify => exact h.present other (by simpa [Request.kept, haction] using hother)
      | rotate => exact h.present other (by simpa [Request.kept, haction] using hother)
      | remove =>
        simp only [Request.kept, haction] at hother
        exact hwhole (by simp [haction]) other (List.mem_of_mem_tail hother)
  refine Program.always_commit_of_ok ?_ hnext.halted
    ⟨(), rfl, hnext, hwhole, fun c hc hid hpre hrest => ?_, new, hmoved.calls, hkeys⟩
  · simp [hof.unfinished hop, hof.operationId]
  · obtain hdone | htype := List.mem_append.mp (hcalls c hc hid hpre)
    · exact hnodup.2.2 _ hdone _ (List.mem_cons_of_mem _ hrest) rfl
    · obtain heq := List.mem_singleton.mp htype
      exact (List.nodup_cons.mp hnodup.2.1).1 (heq ▸ hrest)

/-- The checkpoints of a type keep the operation. -/
theorem Operation.Of.merged (h : op.Of request chosen completed) (phase : String)
    (current : ResourceType) :
    Operation.Of { op with phase := phase, refs := checkpointRefs chosen completed current op.refs }
      request chosen completed :=
  ⟨h.status, h.operationId, h.kind, h.resourceName, h.purgeS3, rfl, rfl⟩

theorem Operation.Of.observed (h : op.Of request chosen completed) (phase : String)
    (current : ResourceType) (index : Option Nat) : Operation.Of { op with phase := phase, refs := {
        checkpointRefs chosen completed current op.refs with modifyIndex := index } }
      request chosen completed :=
  ⟨h.status, h.operationId, h.kind, h.resourceName, h.purgeS3, rfl, rfl⟩

theorem Operation.Of.done (h : op.Of request chosen completed) (phase : String)
    (completed' : List ResourceType) :
    Operation.Of { op with phase := phase, refs := completedRefs chosen completed' op.refs }
      request chosen completed' :=
  ⟨h.status, h.operationId, h.kind, h.resourceName, h.purgeS3, rfl, rfl⟩

/-! ### Create -/

theorem Underway.advances_callCreate (terms : Terms config request chosen)
    (haction : request.action = .create)
    (h : Underway request chosen completed (type :: rest) w)
    (hfirst : recovering = true ∨ Untouched request [type] w) :
    Advances request chosen completed type rest
      (callCreate config request request.operationId chosen completed type recovering
        (providerName config type request.resourceName)) w
      fun _ new _ => new.map Call.key = [(type, false, recovering)] := by
  unfold callCreate
  refine Underway.advances_bind (h.advances_call terms rfl rfl (.inr rfl)
    (fun hcreate => absurd haction hcreate) (hfirst.imp_right .inr)
    (A := fun reply new t => new.map Call.key = [(type, false, recovering)] ∧
      Accepts config _ reply)
    fun reply t _ haccepts => ⟨rfl, haccepts⟩) ?_
  rintro reply new t hmoved ⟨hkey, haccepts⟩
  obtain ⟨hevidence, providerId, hidentity, hname⟩ := haccepts.created haction
  refine Underway.advances_bind (hmoved.underway.advances_inspect hidentity
    (A := fun a new t => a = (providerId, providerName config type request.resourceName) ∧ new = [])
    ⟨rfl, rfl⟩) ?_
  rintro _ _ t₁ hmoved₁ ⟨rfl, rfl⟩
  refine Underway.advances_bind (hmoved₁.underway.advances_inspect (if_pos hevidence)
    (A := fun _ new _ => new = []) rfl) ?_
  rintro _ _ t₂ hmoved₂ rfl
  refine Underway.advances_bind (hmoved₂.underway.advances_index haccepts.index
    (fun op index hop => hop.observed _ _ _) (A := fun _ new _ => new = []) fun _ _ => rfl) ?_
  rintro _ _ t₃ hmoved₃ rfl
  refine Underway.advances_bind (hmoved₃.underway.advances_inspect (a := ())
    (A := fun _ new _ => new = []) ?_ rfl) ?_
  · refine if_neg ?_
    rintro (hne | ⟨hs3, hne⟩)
    · exact hne rfl
    · exact hne (hname hs3)
  rintro _ _ t₄ hmoved₄ rfl
  refine hmoved₄.underway.advances_pure ?_
  simpa using hkey

/-- One type of a creation. -/
theorem Underway.always_createType (terms : Terms config request chosen) (hnodup : chosen.Nodup)
    (haction : request.action = .create)
    (h : Underway request chosen completed (type :: rest) w)
    (hfirst : recovering = true ∨ Untouched request [type] w) :
    (createType config request request.operationId chosen recovering completed type).Always w
      (Halted request chosen) fun r t =>
        ∃ a, r = .ok a ∧ Done request chosen completed type rest recovering w t := by
  have hfits : config.admits type = true := by
    refine terms.capacity haction type ?_
    rw [← h.split]
    simp
  have hcreate : ∀ {P : Prop}, request.action ≠ .create → P := fun hne => absurd haction hne
  unfold createType
  refine (Moved.refl h).always_bind (A := fun a new u => new = [] ∧ w = u)
    (Program.always_read ⟨_, rfl, [], Moved.refl h, rfl, rfl⟩) ?_
  rintro current _ _ - ⟨rfl, rfl⟩
  refine (Moved.refl h).always_bind (A := fun _ new _ => new = []) ?_ ?_
  · unfold putCreating
    split
    · exact h.advances_put (fun _ => hfits) hcreate fun _ => rfl
    · exact h.advances_pure rfl
  rintro _ _ t₁ hmoved₁ rfl
  refine hmoved₁.always_bind (hmoved₁.underway.advances_checkpoint
    (fun op hop => hop.merged _ _) (A := fun _ new _ => new = []) fun _ _ => rfl) ?_
  rintro _ _ t₂ hmoved₂ rfl
  refine hmoved₂.always_bind (Underway.advances_tryCatch
    (hmoved₂.underway.advances_callCreate terms haction
      (hfirst.imp_right fun huntouched => hmoved₂.untouched huntouched))) ?_
  rintro ⟨reply, providerId, name⟩ new t₃ hmoved₃ hkey
  refine hmoved₃.always_bind (A := fun _ new u => new = [] ∧ t₃ = u)
    (Program.always_read ⟨_, rfl, [], Moved.refl hmoved₃.underway, rfl, rfl⟩) ?_
  rintro accepted _ _ - ⟨rfl, rfl⟩
  refine hmoved₃.always_bind (hmoved₃.underway.advances_put (fun _ => hfits) hcreate
    (A := fun _ new _ => new = []) fun _ => rfl) ?_
  rintro _ _ t₄ hmoved₄ rfl
  refine hmoved₄.always_bind (hmoved₄.underway.advances_keys
    (A := fun _ new _ => new = []) fun _ => rfl) ?_
  rintro _ _ t₅ hmoved₅ rfl
  refine hmoved₅.always_bind (hmoved₅.underway.advances_instance
    (A := fun _ new _ => new = []) fun _ => rfl) ?_
  rintro _ _ t₆ hmoved₆ rfl
  refine hmoved₆.always_done hnodup ?_ fun op hop => hop.done _ _
  simpa [roundOf, haction] using hkey

/-! ### Verify -/

/-- The row that `resources[(resource_type, checked_name)]` finds. -/
theorem Underway.advances_resourceOf (h : Underway request chosen completed (type :: rest) w)
    (haction : request.action ≠ .create) (hsome : (w.resources.lookup type).isSome = true)
    {A : ManagedResource → List Call → World → Prop}
    (hA : ∀ resource, w.resources.lookup type = some resource →
      Provided resource.providerId resource.providerName → A resource [] w) :
    Advances request chosen completed type rest (resourceOf type) w A := by
  obtain ⟨resource, hresource⟩ := Option.isSome_iff_exists.mp hsome
  refine h.advances_inspect (a := resource) ?_
    (hA resource hresource (h.provided haction type List.mem_cons_self resource hresource))
  simp only [hresource]

variable {resource : ManagedResource}

theorem Underway.advances_callVerify (terms : Terms config request chosen)
    (haction : request.action = .verify)
    (h : Underway request chosen completed (type :: rest) w)
    (hfirst : recovering = true ∨ Untouched request [type] w)
    (hprovided : Provided resource.providerId resource.providerName) :
    Advances request chosen completed type rest
      (callVerify config request request.operationId chosen completed type recovering resource) w
      fun _ new _ => new.map Call.key = [(type, false, recovering)] := by
  unfold callVerify
  refine Underway.advances_bind (h.advances_call terms rfl rfl (.inr rfl) (fun _ => hprovided)
    (hfirst.imp_right .inr)
    (A := fun reply new t => new.map Call.key = [(type, false, recovering)] ∧
      Accepts config _ reply)
    fun reply t _ haccepts => ⟨rfl, haccepts⟩) ?_
  rintro reply new t hmoved ⟨hkey, haccepts⟩
  refine Underway.advances_bind (hmoved.underway.advances_inspect
    (if_pos (haccepts.verified haction)) (A := fun _ new _ => new = []) rfl) ?_
  rintro _ _ t₁ hmoved₁ rfl
  refine hmoved₁.underway.advances_index haccepts.index (fun op index hop => hop.observed _ _ _)
    fun _ _ => ?_
  simpa using hkey

/-- One type of a verification. -/
theorem Underway.always_verifyType (terms : Terms config request chosen) (hnodup : chosen.Nodup)
    (haction : request.action = .verify)
    (h : Underway request chosen completed (type :: rest) w)
    (hsome : (w.resources.lookup type).isSome = true)
    (hfirst : recovering = true ∨ Untouched request [type] w) :
    (verifyType config request request.operationId chosen recovering completed type).Always w
      (Halted request chosen) fun r t =>
        ∃ a, r = .ok a ∧ Done request chosen completed type rest recovering w t := by
  have hne : request.action ≠ .create := by simp [haction]
  have hkept : type ∈ request.kept chosen (type :: rest) := by
    simp [Request.kept, haction, ← h.split]
  unfold verifyType
  refine (Moved.refl h).always_bind (h.advances_resourceOf hne hsome
    (A := fun a new u => new = [] ∧ Provided a.providerId a.providerName ∧ w = u)
    fun _ _ hprovided => ⟨rfl, hprovided, rfl⟩) ?_
  rintro resource _ _ - ⟨rfl, hprovided, rfl⟩
  refine (Moved.refl h).always_bind (h.advances_checkpoint
    (fun op hop => hop.merged _ _) (A := fun _ new _ => new = []) fun _ _ => rfl) ?_
  rintro _ _ t₁ hmoved₁ rfl
  refine hmoved₁.always_bind (Underway.advances_tryCatch
    (hmoved₁.underway.advances_callVerify terms haction
      (hfirst.imp_right fun huntouched => hmoved₁.untouched huntouched) hprovided)) ?_
  rintro _ new t₂ hmoved₂ hkey
  refine hmoved₂.always_bind (hmoved₂.underway.advances_put
    (fun hnone => absurd (hmoved₂.kept hkept hsome) (by simp [hnone])) (fun _ => hprovided)
    (A := fun _ new _ => new = []) fun _ => rfl) ?_
  rintro _ _ t₃ hmoved₃ rfl
  refine hmoved₃.always_done hnodup ?_ fun op hop => hop.done _ _
  simpa [roundOf, haction] using hkey

/-! ### Rotate -/

theorem rotationIdentityResult_ok {reply : Reply} {providerId : String}
    (hresource : resource.providerId = some providerId)
    (hidentity : identityResult reply = .ok (providerId, resource.providerName))
    (hcredential : reply.credentialName.any validIdentity = true) :
    rotationIdentityResult reply resource = .ok () := by
  unfold rotationIdentityResult
  rw [hidentity, hresource, hcredential]
  simp [bind, Except.bind, pure, Except.pure]

theorem Underway.advances_callRotate (terms : Terms config request chosen)
    (haction : request.action = .rotate)
    (h : Underway request chosen completed (type :: rest) w)
    (hfirst : recovering = true ∨ Untouched request [type] w)
    (hprovided : Provided resource.providerId resource.providerName) :
    Advances request chosen completed type rest
      (callRotate config request request.operationId chosen completed type recovering resource) w
      fun reply new _ => new.map Call.key = [(type, false, recovering)] ∧
        reply.evidenceAccepted = true ∧ reply.retired = true := by
  unfold callRotate
  refine Underway.advances_bind (h.advances_call terms rfl rfl (.inr rfl) (fun _ => hprovided)
    (hfirst.imp_right .inr)
    (A := fun reply new t => new.map Call.key = [(type, false, recovering)] ∧
      Accepts config _ reply)
    fun reply t _ haccepts => ⟨rfl, haccepts⟩) ?_
  rintro reply new t hmoved ⟨hkey, haccepts⟩
  obtain ⟨hevidence, hretired, hcredential, providerId, hresource, hidentity⟩ :=
    haccepts.rotated haction
  refine Underway.advances_bind (hmoved.underway.advances_inspect
    (rotationIdentityResult_ok hresource hidentity hcredential)
    (A := fun _ new _ => new = []) rfl) ?_
  rintro _ _ t₁ hmoved₁ rfl
  refine Underway.advances_bind (hmoved₁.underway.advances_index haccepts.index
    (fun op index hop => hop.observed _ _ _) (A := fun _ new _ => new = []) fun _ _ => rfl) ?_
  rintro _ _ t₂ hmoved₂ rfl
  refine hmoved₂.underway.advances_pure ⟨?_, hevidence, hretired⟩
  simpa using hkey

/-- One type of a rotation. -/
theorem Underway.always_rotateType (terms : Terms config request chosen) (hnodup : chosen.Nodup)
    (haction : request.action = .rotate)
    (h : Underway request chosen completed (type :: rest) w)
    (hsome : (w.resources.lookup type).isSome = true)
    (hfirst : recovering = true ∨ Untouched request [type] w) :
    (rotateType config request request.operationId chosen recovering completed type).Always w
      (Halted request chosen) fun r t =>
        ∃ a, r = .ok a ∧ Done request chosen completed type rest recovering w t := by
  have hne : request.action ≠ .create := by simp [haction]
  have hkept : type ∈ request.kept chosen (type :: rest) := by
    simp [Request.kept, haction, ← h.split]
  unfold rotateType
  refine (Moved.refl h).always_bind (h.advances_resourceOf hne hsome
    (A := fun a new u => new = [] ∧ Provided a.providerId a.providerName ∧ w = u)
    fun _ _ hprovided => ⟨rfl, hprovided, rfl⟩) ?_
  rintro resource _ _ - ⟨rfl, hprovided, rfl⟩
  refine (Moved.refl h).always_bind (h.advances_checkpoint
    (fun op hop => hop.merged _ _) (A := fun _ new _ => new = []) fun _ _ => rfl) ?_
  rintro _ _ t₁ hmoved₁ rfl
  refine hmoved₁.always_bind (Underway.advances_tryCatch
    (hmoved₁.underway.advances_callRotate terms haction
      (hfirst.imp_right fun huntouched => hmoved₁.untouched huntouched) hprovided)) ?_
  rintro reply new t₂ hmoved₂ ⟨hkey, hevidence, hretired⟩
  refine hmoved₂.always_bind (A := fun _ new _ => new = []) ?_ ?_
  · unfold rotated
    rw [if_neg (by simp [hevidence]), if_neg (by simp [hretired])]
    exact hmoved₂.underway.advances_pure rfl
  rintro _ _ t₃ hmoved₃ rfl
  refine hmoved₃.always_bind (hmoved₃.underway.advances_put
    (fun hnone => absurd (hmoved₃.kept hkept hsome) (by simp [hnone])) (fun _ => hprovided)
    (A := fun _ new _ => new = []) fun _ => rfl) ?_
  rintro _ _ t₄ hmoved₄ rfl
  refine hmoved₄.always_done hnodup ?_ fun op hop => hop.done _ _
  simpa [roundOf, haction] using hkey

/-! ### Remove -/

theorem Operation.Of.removal (haction : request.action = .remove)
    (h : op.Of request chosen completed) (phase : String) (current : ResourceType) :
    Operation.Of { op with
        phase := phase, refs := removalRefs request chosen completed current op.refs }
      request chosen completed :=
  ⟨h.status, h.operationId, h.kind, h.resourceName, by simp [removalRefs, Request.purge, haction],
    rfl, rfl⟩

/-- The preflights of types whose rows are there. -/
theorem Underway.advances_preflights (terms : Terms config request chosen)
    (haction : request.action = .remove) {types : List ResourceType}
    (htypes : ∀ other ∈ types, other ∈ type :: rest)
    (h : Underway request chosen completed (type :: rest) w)
    (hsome : ∀ other ∈ types, (w.resources.lookup other).isSome = true) :
    Advances request chosen completed type rest
      (preflights config request request.operationId recovering types) w
      fun _ new t => new.map Call.key = (types.map fun other => (other, true, recovering)) ∧
        t.resources = w.resources ∧ ∀ c ∈ new, c.preflight = true := by
  have hne : request.action ≠ .create := by simp [haction]
  induction types generalizing w with
  | nil => exact h.advances_pure ⟨rfl, rfl, by simp⟩
  | cons other types ih =>
    unfold preflights
    obtain ⟨resource, hresource⟩ := Option.isSome_iff_exists.mp (hsome other List.mem_cons_self)
    have hprovided := h.provided hne other (htypes other List.mem_cons_self) resource hresource
    refine Underway.advances_bind (h.advances_inspect (a := resource)
      (A := fun a new u => new = [] ∧ a = resource ∧ w = u) ?_ ⟨rfl, rfl, rfl⟩) ?_
    · simp only [hresource]
    rintro _ _ _ - ⟨rfl, rfl, rfl⟩
    refine Underway.advances_bind (h.advances_call terms rfl rfl (.inl rfl) (fun _ => hprovided)
      (.inr (.inl rfl))
      (A := fun reply new t => new.map Call.key = [(other, true, recovering)] ∧
        (∀ c ∈ new, c.preflight = true) ∧ t.resources = w.resources ∧ Accepts config _ reply)
      fun reply t hrows haccepts => ⟨rfl, by simp [Request.removal], hrows, haccepts⟩) ?_
    rintro reply new t hmoved ⟨hkey, hpre, hrows, haccepts⟩
    refine Underway.advances_bind (hmoved.underway.advances_inspect
      (if_pos (haccepts.accepted haction rfl)) (A := fun _ new u => new = [] ∧ t = u)
      ⟨rfl, rfl⟩) ?_
    rintro _ _ _ - ⟨rfl, rfl⟩
    refine (ih (fun o ho => htypes o (List.mem_cons_of_mem _ ho)) hmoved.underway
      fun o ho => ?_).mono (fun _ hu => hu) ?_
    · rw [hrows]
      exact hsome o (List.mem_cons_of_mem _ ho)
    · rintro r u ⟨a, rfl, new', hmoved', hkey', hrows', hpre'⟩
      refine ⟨a, rfl, new', hmoved', ?_, hrows'.trans hrows, ?_⟩
      · simp [hkey, hkey']
      · intro c hc
        simp only [List.nil_append, List.mem_append] at hc
        obtain hc | hc := hc
        · exact hpre c hc
        · exact hpre' c hc

theorem Underway.advances_callRemove (terms : Terms config request chosen)
    (haction : request.action = .remove)
    (h : Underway request chosen completed (type :: rest) w)
    (hfirst : recovering = true ∨ Untouched request [type] w)
    (hprovided : Provided resource.providerId resource.providerName) :
    Advances request chosen completed type rest
      (callRemove config request request.operationId chosen completed type recovering resource) w
      fun _ new _ => new.map Call.key = [(type, false, recovering)] := by
  unfold callRemove
  refine Underway.advances_bind (h.advances_call terms rfl rfl (.inr rfl) (fun _ => hprovided)
    (hfirst.imp_right .inr)
    (A := fun reply new t => new.map Call.key = [(type, false, recovering)] ∧
      Accepts config _ reply)
    fun reply t _ haccepts => ⟨rfl, haccepts⟩) ?_
  rintro reply new t hmoved ⟨hkey, haccepts⟩
  obtain ⟨habsent, henvironment⟩ := haccepts.removed haction rfl
  refine Underway.advances_bind (hmoved.underway.advances_inspect
    (if_pos (by simp [habsent, henvironment])) (A := fun _ new _ => new = []) rfl) ?_
  rintro _ _ t₁ hmoved₁ rfl
  refine hmoved₁.underway.advances_index haccepts.index (fun op index hop => ?_) fun _ _ => ?_
  · exact ⟨hop.status, hop.operationId, hop.kind, hop.resourceName,
      by simp [removalRefs, Request.purge, haction], rfl, rfl⟩
  · simpa using hkey

/-- The types still to be done are the ones that are not completed. -/
theorem filter_pending (hnodup : chosen.Nodup) (hsplit : completed ++ pending = chosen) :
    chosen.filter (· ∉ completed) = pending := by
  subst hsplit
  have hdisjoint := (List.nodup_append.mp hnodup).2.2
  rw [List.filter_append, List.filter_eq_nil_iff.mpr, List.nil_append, List.filter_eq_self]
  · intro other hother
    exact decide_eq_true fun hdone => hdisjoint other hdone other hother rfl
  · intro other hother
    simpa using hother

/-- The deletion of the row of the type that is worked on. -/
theorem Underway.advances_delete (haction : request.action = .remove) (hnodup : type ∉ rest)
    (h : Underway request chosen completed (type :: rest) w)
    (hA : ∀ t, A () [] t) :
    Advances request chosen completed type rest (deleteManagedResource type) w A := by
  refine h.advances_rows (w.resources.erase type) w.environmentKeys rfl (fun other hother => ?_)
    (fun hmem _ => ?_) (fun _ row hrow => ?_) (hA _)
  · exact AList.lookup_erase_ne hother
  · simp only [Request.kept, haction, List.tail_cons] at hmem
    exact absurd hmem hnodup
  · rw [AList.lookup_erase] at hrow
    cases hrow

/-- One type of a removal. -/
theorem Underway.always_removeType (terms : Terms config request chosen) (hnodup : chosen.Nodup)
    (haction : request.action = .remove)
    (h : Underway request chosen completed (type :: rest) w)
    (hsome : (w.resources.lookup type).isSome = true)
    (hfirst : recovering = true ∨ Untouched request [type] w) :
    (removeType config request request.operationId chosen recovering completed type).Always w
      (Halted request chosen) fun r t =>
        ∃ a, r = .ok a ∧ Done request chosen completed type rest recovering w t := by
  have hne : request.action ≠ .create := by simp [haction]
  have hpending := filter_pending hnodup h.split
  have hrest : type ∉ rest := by
    rw [← h.split, List.nodup_append] at hnodup
    exact (List.nodup_cons.mp hnodup.2.1).1
  unfold removeType
  rw [hpending]
  refine (Moved.refl h).always_bind (Underway.advances_tryCatch
    (h.advances_preflights terms haction (fun _ ho => ho) ?_)) ?_
  · intro other hother
    obtain rfl | hother := List.mem_cons.mp hother
    · exact hsome
    · exact h.whole hne other hother
  rintro _ new t₁ hmoved₁ ⟨hpreflights, hrows₁, hpre⟩
  refine hmoved₁.always_bind (hmoved₁.underway.advances_checkpoint
    (fun op hop => hop.removal haction _ _)
    (A := fun _ new u => new = [] ∧ u.resources = t₁.resources) fun _ hu => ⟨rfl, hu⟩) ?_
  rintro _ _ t₂ hmoved₂ ⟨rfl, hrows₂⟩
  have hsome₂ : (t₂.resources.lookup type).isSome = true := by rw [hrows₂, hrows₁, hsome]
  refine hmoved₂.always_bind (hmoved₂.underway.advances_resourceOf hne hsome₂
    (A := fun a new u => new = [] ∧ Provided a.providerId a.providerName ∧ t₂ = u)
    fun _ _ hprovided => ⟨rfl, hprovided, rfl⟩) ?_
  rintro resource _ _ - ⟨rfl, hprovided, rfl⟩
  refine hmoved₂.always_bind (A := fun _ new _ => new = []) ?_ ?_
  · unfold putRemoving
    split
    · exact hmoved₂.underway.advances_pure rfl
    · exact hmoved₂.underway.advances_put (fun hnone => absurd hsome₂ (by simp [hnone]))
        (fun _ => hprovided) fun _ => rfl
  rintro _ _ t₃ hmoved₃ rfl
  refine hmoved₃.always_bind (hmoved₃.underway.advances_checkpoint
    (fun op hop => hop.removal haction _ _) (A := fun _ new _ => new = []) fun _ _ => rfl) ?_
  rintro _ _ t₄ hmoved₄ rfl
  refine hmoved₄.always_bind (Underway.advances_tryCatch
    (hmoved₄.underway.advances_callRemove terms haction
      (hfirst.imp_right fun huntouched => ?_) hprovided)) ?_
  · intro c hc
    rw [hmoved₄.calls] at hc
    simp only [List.nil_append, List.append_nil, List.mem_append] at hc
    obtain hc | hc := hc
    · exact huntouched c hc
    · intro _ hfalse
      rw [hpre c hc] at hfalse
      cases hfalse
  rintro _ new' t₅ hmoved₅ hkey
  refine hmoved₅.always_bind (hmoved₅.underway.advances_keys
    (A := fun _ new _ => new = []) fun _ => rfl) ?_
  rintro _ _ t₆ hmoved₆ rfl
  refine hmoved₆.always_bind (hmoved₆.underway.advances_delete haction hrest
    (A := fun _ new _ => new = []) fun _ => rfl) ?_
  rintro _ _ t₇ hmoved₇ rfl
  refine hmoved₇.always_done hnodup ?_ fun op hop => ?_
  · simp [roundOf, haction, hkey, hpreflights]
  · exact ⟨hop.status, hop.operationId, hop.kind, hop.resourceName,
      by simp [Request.purge, haction], rfl, rfl⟩

/-! ## Whole operations -/

/-- One type of a request. -/
theorem Underway.always_step (terms : Terms config request chosen) (hnodup : chosen.Nodup)
    (h : Underway request chosen completed (type :: rest) w)
    (hwhole : Whole request (type :: rest) w)
    (hfirst : recovering = true ∨ Untouched request [type] w) :
    (step config request request.operationId chosen recovering completed type).Always w
      (Halted request chosen) fun r t =>
        ∃ a, r = .ok a ∧ Done request chosen completed type rest recovering w t := by
  unfold step
  cases haction : request.action with
  | create => exact h.always_createType terms hnodup haction hfirst
  | verify =>
    exact h.always_verifyType terms hnodup haction
      (hwhole (by simp [haction]) type List.mem_cons_self) hfirst
  | rotate =>
    exact h.always_rotateType terms hnodup haction
      (hwhole (by simp [haction]) type List.mem_cons_self) hfirst
  | remove =>
    exact h.always_removeType terms hnodup haction
      (hwhole (by simp [haction]) type List.mem_cons_self) hfirst

/-- The loop passes over completed types. -/
theorem each_append (f : Bool → List ResourceType → ResourceType → Prog Unit)
    (recovering : Bool) (pending : List ResourceType) {done : List ResourceType}
    (hdone : ∀ other ∈ done, other ∈ completed) :
    each f (done ++ pending) recovering completed = each f pending recovering completed := by
  induction done with
  | nil => rfl
  | cons other done ih =>
    rw [List.cons_append, each, if_pos (hdone other List.mem_cons_self)]
    exact ih fun o ho => hdone o (List.mem_cons_of_mem _ ho)

/-- The loop over the types still to be done. -/
theorem Underway.always_each (terms : Terms config request chosen) (hnodup : chosen.Nodup)
    (h : Underway request chosen completed pending w) (hwhole : Whole request pending w)
    (hfirst : recovering = true ∨ Untouched request pending w) :
    (each (step config request request.operationId chosen) pending recovering completed).Always w
      (Halted request chosen) fun r t => ∃ a, r = .ok a ∧ a = chosen ∧
        Underway request chosen chosen [] t ∧ ∃ new, t.calls = w.calls ++ new ∧
          new.map Call.key = callsOf request.action recovering pending := by
  induction pending generalizing w completed recovering with
  | nil =>
    have hsplit : completed = chosen := by rw [← h.split, List.append_nil]
    subst hsplit
    exact Program.always_pure ⟨_, rfl, rfl, h, [], (List.append_nil _).symm, rfl⟩
  | cons type rest ih =>
    have hnew : type ∉ completed := by
      intro hdone
      rw [← h.split, List.nodup_append] at hnodup
      exact hnodup.2.2 type hdone type List.mem_cons_self rfl
    rw [each, if_neg hnew]
    refine Program.always_bind_of_ok (h.always_step terms hnodup hwhole ?_) ?_
    · refine hfirst.imp_right fun huntouched c hc hid hpre hmem => ?_
      obtain heq := List.mem_singleton.mp hmem
      exact huntouched c hc hid hpre (heq ▸ List.mem_cons_self)
    rintro _ t hdone
    refine (ih hdone.underway hdone.whole (.inr hdone.untouched)).mono (fun _ hu => hu) ?_
    rintro r u ⟨a, rfl, ha, hunder, new, hcalls, hkeys⟩
    obtain ⟨new', hcalls', hkeys'⟩ := hdone.calls
    refine ⟨a, rfl, ha, hunder, new' ++ new, ?_, ?_⟩
    · rw [hcalls, hcalls', List.append_assoc]
    · rw [List.map_append, hkeys', hkeys]
      rfl

/-- The last two transactions. -/
theorem Underway.always_completeOperation (h : Underway request chosen chosen [] w) :
    (completeOperation request.operationId chosen chosen).Always w (Halted request chosen)
      fun r t => r = .ok (chosen, chosen) ∧ Succeeded request t ∧ t.calls = w.calls := by
  obtain ⟨op, hop, hof⟩ := h.operation
  have hnext : Underway request chosen chosen [] { w with operation := some { op with
      phase := "accepted", refs := completedRefs chosen chosen op.refs
      cleanupState := "confirmed" } } :=
    ⟨⟨_, rfl, hof.status, hof.operationId, hof.kind, hof.resourceName, hof.purgeS3, rfl, rfl⟩,
      h.split, h.provided, h.present, h.calls⟩
  unfold completeOperation
  refine Program.always_bind_of_ok (A := fun _ t => Underway request chosen chosen [] t ∧
      t.calls = w.calls) (Program.always_commit_of_ok ?_ hnext.halted
    ⟨(), rfl, hnext, rfl⟩) ?_
  · simp [hof.unfinished hop, hof.operationId]
  rintro _ t ⟨hunder, hcalls⟩
  obtain ⟨op', hop', hof'⟩ := hunder.operation
  have hdone : Succeeded request { t with operation := some { op' with
      status := .succeeded, cleanupState := "confirmed" } } :=
    ⟨_, rfl, hof'.operationId, rfl⟩
  refine Program.always_bind_of_ok (A := fun _ u => Succeeded request u ∧ u.calls = t.calls)
    (Program.always_commit_of_ok ?_ (.inr hdone) ⟨(), rfl, hdone, rfl⟩) ?_
  · simp [hof'.unfinished hop', hof'.operationId]
  rintro _ u ⟨hsucceeded, hcalls'⟩
  exact Program.always_pure ⟨rfl, hsucceeded, hcalls'.trans hcalls⟩

theorem selected_nodup {types : List ResourceType} (h : selected types = .ok chosen) :
    chosen.Nodup := by
  unfold selected at h
  split at h
  · cases h
  · cases h
    exact List.Nodup.filter _ (by decide)

theorem existingOperation_of (hop : w.operation = some op) (hof : op.Of request chosen completed) :
    existingOperation request chosen w = .ok (some op) := by
  unfold existingOperation
  rw [hof.unfinished hop]
  exact if_pos ⟨hof.kind, hof.selected, hof.resourceName, fun _ => hof.purgeS3⟩

/-- The entry checks of a replay. -/
theorem Underway.checkRows_eq (terms : Terms config request chosen) (hnodup : chosen.Nodup)
    (h : Underway request chosen completed pending w) (hof : op.Of request chosen completed) :
    checkRows config request chosen (some op) w = .ok () ↔ Whole request pending w := by
  have hpending : ∀ other ∈ pending, other ∈ chosen := by
    intro other hother
    rw [← h.split]
    exact List.mem_append_right _ hother
  have hall : request.action = .verify ∨ request.action = .rotate →
      (chosen.filter fun type => !(w.resources.lookup type).isSome) = [] ∧
        Whole request pending w := by
    intro haction
    have hpresent : ∀ type ∈ chosen, (w.resources.lookup type).isSome = true := by
      intro type htype
      refine h.present type ?_
      obtain haction | haction := haction <;> simpa [Request.kept, haction] using htype
    refine ⟨List.filter_eq_nil_iff.mpr fun type htype => ?_, fun _ type htype =>
      hpresent type (hpending type htype)⟩
    simp [hpresent type htype]
  cases haction : request.action with
  | create => simp [checkRows, haction, Whole]
  | verify =>
    obtain ⟨hnil, hwhole⟩ := hall (.inl haction)
    simp only [checkRows, haction]
    rw [if_pos hnil]
    exact iff_of_true rfl hwhole
  | rotate =>
    obtain ⟨hnil, hwhole⟩ := hall (.inr haction)
    simp only [checkRows, haction]
    rw [if_pos hnil]
    exact iff_of_true rfl hwhole
  | remove =>
    have hcompleted : (completed.any fun type => decide (type ∉ chosen)) = false := by
      rw [List.any_eq_false]
      intro type htype
      rw [← h.split]
      simp [htype]
    have hunreferenced : (chosen.any fun type =>
        (w.resources.lookup type).isSome && config.referenced type) = false := by
      rw [List.any_eq_false]
      intro type htype
      simp [terms.unreferenced haction type htype]
    have hmissing : (chosen.filter fun type =>
        !(w.resources.lookup type).isSome && !completed.contains type) = [] ↔
        Whole request pending w := by
      rw [List.filter_eq_nil_iff]
      constructor
      · intro hnone _ type htype
        have hnew : type ∉ completed := by
          rw [← h.split, List.nodup_append] at hnodup
          exact fun hdone => hnodup.2.2 type hdone type htype rfl
        simpa [hnew, Option.isSome_iff_ne_none] using hnone type (hpending type htype)
      · intro hwhole type htype
        rw [← h.split] at htype
        obtain hdone | htype := List.mem_append.mp htype
        · simp [hdone]
        · simp [hwhole (by simp [haction]) type htype]
    rw [← hmissing]
    simp only [checkRows, haction, Option.map_some, Option.getD_some, hof.completed, hcompleted,
      Option.isSome_some, hunreferenced, Bool.false_eq_true, if_false, if_true]
    split
    next hnil => exact iff_of_true rfl hnil
    next hnil => exact iff_of_false (fun heq => by cases heq) hnil

/-- A replay that finds the rows it needs runs through, with the calls about the types still to be
done. -/
theorem Underway.always_mutate (terms : Terms config request chosen)
    (h : Underway request chosen completed pending w) (hwhole : Whole request pending w) :
    (mutate config request).Always w (Halted request chosen) fun r t =>
      r = .ok (chosen, chosen) ∧ Succeeded request t ∧ ∃ new, t.calls = w.calls ++ new ∧
        new.map Call.key = callsOf request.action true pending := by
  have hnodup := selected_nodup terms.selected
  obtain ⟨op, hop, hof⟩ := h.operation
  unfold mutate
  refine Program.always_bind_of_ok (A := fun a t => chosen = a ∧ w = t)
    (Program.always_inspect ⟨_, terms.selected, rfl, rfl⟩) ?_
  rintro _ _ ⟨rfl, rfl⟩
  refine Program.always_bind_of_ok (A := fun _ t => w = t)
    (Program.always_inspect ⟨_, terms.confirmed, rfl⟩) ?_
  rintro _ _ rfl
  refine Program.always_bind_of_ok (A := fun a t => some op = a ∧ w = t)
    (Program.always_inspect ⟨_, existingOperation_of hop hof, rfl, rfl⟩) ?_
  rintro _ _ ⟨rfl, rfl⟩
  refine Program.always_bind_of_ok (A := fun _ t => w = t)
    (Program.always_inspect ⟨_, (h.checkRows_eq terms hnodup hof).mpr hwhole, rfl⟩) ?_
  rintro _ _ rfl
  refine Program.always_bind_of_ok (A := fun a t => (request.operationId, completed) = a ∧ w = t)
    (Program.always_pure ⟨_, by rw [hof.operationId, hof.completed], rfl, rfl⟩) ?_
  rintro _ _ ⟨rfl, rfl⟩
  refine Program.always_bind_of_ok (A := fun a t => chosen = a ∧
      Underway request chosen chosen [] t ∧ ∃ new, t.calls = w.calls ++ new ∧
        new.map Call.key = callsOf request.action true pending) ?_ ?_
  · have heach := each_append (step config request request.operationId chosen) true pending
      fun other (hdone : other ∈ completed) => hdone
    rw [h.split] at heach
    rw [Option.isSome_some, heach]
    refine (h.always_each terms hnodup hwhole (.inl rfl)).mono (fun _ hu => hu) ?_
    rintro r u ⟨a, hr, ha, hu⟩
    exact ⟨a, hr, ha.symm, hu⟩
  rintro _ t ⟨rfl, hunder, new, hcalls, hkeys⟩
  refine hunder.always_completeOperation.mono (fun _ hu => hu) ?_
  rintro r u ⟨hr, hsucceeded, hcalls'⟩
  exact ⟨hr, hsucceeded, new, hcalls'.trans hcalls, hkeys⟩

/-- A replay that misses a row raises, and does nothing. -/
theorem Underway.run_of_not_whole (terms : Terms config request chosen)
    (h : Underway request chosen completed pending w) (hwhole : ¬Whole request pending w) :
    ∃ e, (mutate config request).run w = ⟨[], .error e⟩ := by
  have hnodup := selected_nodup terms.selected
  obtain ⟨op, hop, hof⟩ := h.operation
  have hrows : ∃ e, checkRows config request chosen (some op) w = .error e := by
    cases hcheck : checkRows config request chosen (some op) w with
    | error e => exact ⟨e, rfl⟩
    | ok _ => exact absurd ((h.checkRows_eq terms hnodup hof).mp hcheck) hwhole
  obtain ⟨e, hrows⟩ := hrows
  refine ⟨e, ?_⟩
  unfold mutate
  simp [bind, Program.bind, Program.inspect, terms.selected, terms.confirmed,
    existingOperation_of hop hof, hrows, Trace.after, Trace.final]

/-! ## Stops and replays -/

/-- The state a request finds when it begins: no unfinished operation, no operation or call of this
ID, and the rows that its entry checks ask for. -/
structure Accepted (request : Request) (chosen : List ResourceType) (w : World) : Prop where
  idle : w.unfinished = none
  fresh : ∀ op, w.operation = some op → op.operationId ≠ request.operationId
  calls : ∀ c ∈ w.calls, c.operationId ≠ request.operationId
  absent : request.action = .create → ∀ type ∈ chosen, w.resources.lookup type = none
  present : request.action ≠ .create → ∀ type ∈ chosen, ∃ row,
    w.resources.lookup type = some row ∧ Provided row.providerId row.providerName

theorem Accepted.checkRows_eq (terms : Terms config request chosen)
    (h : Accepted request chosen w) : checkRows config request chosen none w = .ok () := by
  have hsome : request.action ≠ .create → ∀ type ∈ chosen,
      (w.resources.lookup type).isSome = true := by
    intro hne type htype
    obtain ⟨row, hrow, -⟩ := h.present hne type htype
    rw [hrow]
    rfl
  cases haction : request.action with
  | create =>
    have hnone : (chosen.any fun type => (w.resources.lookup type).isSome) = false := by
      rw [List.any_eq_false]
      intro type htype
      simp [h.absent haction type htype]
    simp [checkRows, haction, hnone]
  | verify =>
    simp only [checkRows, haction]
    refine if_pos (List.filter_eq_nil_iff.mpr fun type htype => ?_)
    simp [hsome (by simp [haction]) type htype]
  | rotate =>
    simp only [checkRows, haction]
    refine if_pos (List.filter_eq_nil_iff.mpr fun type htype => ?_)
    simp [hsome (by simp [haction]) type htype]
  | remove =>
    have hmissing : (chosen.filter fun type => !(w.resources.lookup type).isSome &&
        !([] : List ResourceType).contains type) = [] :=
      List.filter_eq_nil_iff.mpr fun type htype => by
        simp [hsome (by simp [haction]) type htype]
    have hunreferenced : (chosen.any fun type =>
        (w.resources.lookup type).isSome && config.referenced type) = false := by
      rw [List.any_eq_false]
      intro type htype
      simp [terms.unreferenced haction type htype]
    simp only [checkRows, haction, Option.map_none, Option.getD_none, List.any_nil, hmissing,
      hunreferenced, Bool.false_eq_true, if_false, if_true]
    rfl

/-- The transaction that begins the operation. -/
theorem Accepted.always_begin (terms : Terms config request chosen)
    (h : Accepted request chosen w) (phase : String) :
    (begin config request chosen phase).Always w (Halted request chosen) fun r t =>
      ∃ a, r = .ok a ∧ Underway request chosen [] chosen t ∧ t.calls = w.calls ∧
        t.resources = w.resources := by
  have hnext : Underway request chosen [] chosen { w with operation := some {
      operationId := request.operationId, kind := request.action.kind, status := .running
      phase := phase, cleanupState := "pending"
      refs := {
        selected := chosen, completed := [], current := none
        resourceName := request.resourceName, purgeS3 := request.purge, modifyIndex := none } } } := by
    have hpresent : request.action ≠ .create → ∀ type ∈ chosen,
        (w.resources.lookup type).isSome = true := by
      intro hne type htype
      obtain ⟨row, hrow, -⟩ := h.present hne type htype
      rw [hrow]
      rfl
    refine ⟨⟨_, rfl, rfl, rfl, rfl, rfl, rfl, rfl, rfl⟩, rfl, fun hne type htype row hrow => ?_,
      fun type htype => ?_, fun c hc hid => absurd hid (h.calls c hc)⟩
    · obtain ⟨row', hrow', hprovided⟩ := h.present hne type htype
      cases hrow.symm.trans hrow'
      exact hprovided
    · cases haction : request.action with
      | create => simp [Request.kept, haction] at htype
      | verify =>
        exact hpresent (by simp [haction]) type (by simpa [Request.kept, haction] using htype)
      | rotate =>
        exact hpresent (by simp [haction]) type (by simpa [Request.kept, haction] using htype)
      | remove =>
        simp only [Request.kept, haction] at htype
        exact hpresent (by simp [haction]) type (List.mem_of_mem_tail htype)
  refine Program.always_commit_of_ok ?_ hnext.halted ⟨(), rfl, hnext, rfl, rfl⟩
  simp [terms.finishing, h.idle]

/-- The first run of a request. -/
theorem Accepted.always_mutate (terms : Terms config request chosen)
    (h : Accepted request chosen w) :
    (mutate config request).Always w (Halted request chosen) fun r t =>
      r = .ok (chosen, chosen) ∧ Succeeded request t ∧ ∃ new, t.calls = w.calls ++ new ∧
        new.map Call.key = callsOf request.action false chosen := by
  have hnodup := selected_nodup terms.selected
  unfold mutate
  refine Program.always_bind_of_ok (A := fun a t => chosen = a ∧ w = t)
    (Program.always_inspect ⟨_, terms.selected, rfl, rfl⟩) ?_
  rintro _ _ ⟨rfl, rfl⟩
  refine Program.always_bind_of_ok (A := fun _ t => w = t)
    (Program.always_inspect ⟨_, terms.confirmed, rfl⟩) ?_
  rintro _ _ rfl
  refine Program.always_bind_of_ok (A := fun a t => none = a ∧ w = t)
    (Program.always_inspect ⟨_, by simp only [existingOperation, h.idle], rfl, rfl⟩) ?_
  rintro _ _ ⟨rfl, rfl⟩
  refine Program.always_bind_of_ok (A := fun _ t => w = t)
    (Program.always_inspect ⟨_, h.checkRows_eq terms, rfl⟩) ?_
  rintro _ _ rfl
  refine Program.always_bind_of_ok (A := fun a t => (request.operationId, []) = a ∧
    Underway request chosen [] chosen t ∧ t.calls = w.calls ∧ t.resources = w.resources) ?_ ?_
  · refine Program.always_bind_of_ok (A := fun _ t => Underway request chosen [] chosen t ∧
      t.calls = w.calls ∧ t.resources = w.resources) (h.always_begin terms _) ?_
    rintro _ t ht
    exact Program.always_pure ⟨_, rfl, rfl, ht⟩
  rintro _ t ⟨rfl, hunder, hcalls, hrows⟩
  refine Program.always_bind_of_ok (hunder.always_each terms hnodup (fun hne type htype => ?_)
    (.inr fun c hc hid _ _ => ?_)) ?_
  · obtain ⟨row, hrow, -⟩ := h.present hne type htype
    rw [hrows, hrow]
    rfl
  · rw [hcalls] at hc
    exact h.calls c hc hid
  rintro _ u ⟨rfl, hunder', new, hcalls', hkeys⟩
  refine hunder'.always_completeOperation.mono (fun _ hu => hu) ?_
  rintro r v ⟨hr, hsucceeded, hcalls''⟩
  refine ⟨hr, hsucceeded, new, ?_, hkeys⟩
  rw [hcalls'', hcalls', hcalls]

end Storage
end Controller
end OpenstackPlatform
