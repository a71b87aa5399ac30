import OpenstackPlatform.Controller.StorageReplays

/-!
# Stops of a storage operation

When the same request, sent again after a stop, finishes the operation that stopped.

Creations, verifications and rotations can be replayed from every stop.  A removal deletes the row
of a type in one transaction and lists the type as completed in the next: a stop between the two
leaves a type without a row that is not listed, and the entry check of the replay raises
(`replay_of_stopped`).  A removal also sends `recover` with the preflights of all the types still to
be done, not only with that of the type in progress.
-/

namespace OpenstackPlatform
namespace Controller
namespace Storage

open Library

/-- The states in which stops of a request can leave the world. -/
inductive Stopped (config : Config) (request : Request) (w : World) : World → Prop where
  | start : Stopped config request w w
  | attempt {t u : World} : Stopped config request w t → ¬Succeeded request t →
    u ∈ (mutate config request).stops t → Stopped config request w u

/-- The types that an unfinished operation lists as completed. -/
def World.completed (w : World) : List ResourceType :=
  (w.unfinished.map (·.refs.completed)).getD []

/-- The types that an unfinished operation has still to do. -/
def World.pending (w : World) : List ResourceType :=
  match w.unfinished with
  | some op => op.refs.selected.filter (· ∉ op.refs.completed)
  | none => []

/-- The type that was in progress. -/
def World.inProgress (w : World) : Option ResourceType := w.pending.head?

/-- The calls of a replay. -/
def replayCalls (config : Config) (request : Request) (w : World) : List Call :=
  (((mutate config request).run w).final w).calls.drop w.calls.length

/-- A replay succeeds without raising, recovers exactly the type that was in progress, and makes no
call about a completed type. -/
structure Replays (config : Config) (request : Request) (w : World) : Prop where
  returns : ∃ result, ((mutate config request).run w).result = .ok result
  succeeds : Succeeded request (((mutate config request).run w).final w)
  recovers : ∀ c ∈ replayCalls config request w, c.recover = true ↔ w.inProgress = some c.type
  calls : ∀ type, w.inProgress = some type → ∃ c ∈ replayCalls config request w, c.type = type
  passes : ∀ c ∈ replayCalls config request w, c.type ∉ w.completed

/-- What a removal needs of the state it stopped in: the rows of the types still to be done, and no
more than one of them. -/
def Replayable (request : Request) (w : World) : Prop :=
  request.action = .remove →
    (∀ type ∈ w.pending, (w.resources.lookup type).isSome = true) ∧ w.pending.length ≤ 1


variable {config : Config} {request : Request} {chosen completed pending : List ResourceType}
  {w t : World}

/-- A stop leaves the world as it was before the request, or between two transactions of its
operation, or after the last one. -/
theorem Stopped.cases (terms : Terms config request chosen) (haccepted : Accepted request chosen w)
    (h : Stopped config request w t) : t = w ∨ Halted request chosen t := by
  induction h with
  | start => exact .inl rfl
  | @attempt v u ht hrun hu ih =>
    obtain rfl | ⟨completed, pending, hunder⟩ | hdone := ih
    · obtain rfl | hu := List.mem_cons.mp hu
      · exact .inl rfl
      · exact .inr ((haccepted.always_mutate terms).1 _ hu)
    · refine .inr ?_
      by_cases hwhole : Whole request pending v
      · exact (hunder.always_mutate terms hwhole).stop hunder.halted hu
      · obtain ⟨e, heq⟩ := hunder.run_of_not_whole terms hwhole
        unfold Program.stops at hu
        rw [heq] at hu
        obtain rfl := List.mem_singleton.mp hu
        exact hunder.halted
    · exact absurd hdone hrun

theorem Underway.completed_eq (h : Underway request chosen completed pending w) :
    w.completed = completed := by
  obtain ⟨op, hop, hof⟩ := h.operation
  simp [World.completed, hof.unfinished hop, hof.completed]

theorem Underway.pending_eq (hnodup : chosen.Nodup)
    (h : Underway request chosen completed pending w) : w.pending = pending := by
  obtain ⟨op, hop, hof⟩ := h.operation
  simp only [World.pending, hof.unfinished hop, hof.selected, hof.completed]
  exact filter_pending hnodup h.split

variable {key : ResourceType × Bool × Bool}

/-- The calls about the types behind the first are no recoveries. -/
theorem recover_of_mem_callsOf {action : Action} {types : List ResourceType}
    (h : key ∈ callsOf action false types) : key.2.2 = false := by
  induction types with
  | nil => cases h
  | cons type rest ih =>
    obtain h | h := List.mem_append.mp h
    · unfold roundOf at h
      split at h
      · simp only [List.mem_append, List.mem_map, List.mem_singleton] at h
        obtain ⟨other, -, rfl⟩ | rfl := h
        · rfl
        · rfl
      · simp only [List.nil_append, List.mem_singleton] at h
        rw [h]
    · exact ih h

/-- Every call is about a type that is still to be done. -/
theorem mem_of_mem_callsOf {action : Action} {recovering : Bool} {types : List ResourceType}
    (h : key ∈ callsOf action recovering types) : key.1 ∈ types := by
  induction types generalizing recovering with
  | nil => cases h
  | cons type rest ih =>
    obtain h | h := List.mem_append.mp h
    · unfold roundOf at h
      split at h
      · simp only [List.mem_append, List.mem_map, List.mem_singleton] at h
        obtain ⟨other, hother, rfl⟩ | rfl := h
        · exact hother
        · exact List.mem_cons_self
      · simp only [List.nil_append, List.mem_singleton] at h
        rw [h]
        exact List.mem_cons_self
    · exact List.mem_cons_of_mem _ (ih h)

/-- The calls of a replay recover the first type, and only it, unless a removal has several types
still to do. -/
theorem recover_callsOf {action : Action} {type : ResourceType} {rest : List ResourceType}
    (hnodup : (type :: rest).Nodup) (hsingle : action = .remove → rest = [])
    (h : key ∈ callsOf action true (type :: rest)) : key.2.2 = true ↔ type = key.1 := by
  obtain h | h := List.mem_append.mp h
  · unfold roundOf at h
    split at h
    next haction =>
      obtain rfl := hsingle haction
      simp only [List.map_cons, List.map_nil, List.mem_append, List.mem_singleton] at h
      obtain rfl | rfl := h
      · exact iff_of_true rfl rfl
      · exact iff_of_true rfl rfl
    next =>
      simp only [List.nil_append, List.mem_singleton] at h
      rw [h]
      exact iff_of_true rfl rfl
  · rw [recover_of_mem_callsOf h]
    refine iff_of_false Bool.false_ne_true fun heq => ?_
    exact (List.nodup_cons.mp hnodup).1 (heq ▸ mem_of_mem_callsOf h)

/-- A replay that finds the rows it needs. -/
theorem Underway.replays_iff (terms : Terms config request chosen)
    (h : Underway request chosen completed pending w) (hwhole : Whole request pending w) :
    Replays config request w ↔ (request.action = .remove → pending.length ≤ 1) := by
  have hnodup := selected_nodup terms.selected
  have hpending := h.pending_eq hnodup
  obtain ⟨hresult, hsucceeded, new, hcalls, hkeys⟩ := (h.always_mutate terms hwhole).2
  have hreplay : replayCalls config request w = new := by
    unfold replayCalls
    rw [hcalls, List.drop_left]
  have hmem : ∀ c ∈ new, c.key ∈ callsOf request.action true pending := by
    intro c hc
    rw [← hkeys]
    exact List.mem_map_of_mem hc
  rw [← h.split, List.nodup_append] at hnodup
  constructor
  · intro hreplays haction
    by_contra hlength
    obtain _ | ⟨type, _ | ⟨other, rest⟩⟩ := pending
    · exact hlength (Nat.zero_le 1)
    · exact hlength (Nat.le_refl 1)
    · have hother : (other, true, true) ∈ new.map Call.key := by
        rw [hkeys]
        simp [callsOf, roundOf, haction]
      obtain ⟨c, hc, hkey⟩ := List.mem_map.mp hother
      obtain ⟨hctype, -, hrecover⟩ : c.type = other ∧ c.preflight = true ∧ c.recover = true := by
        simpa [Call.key] using hkey
      have hprogress := (hreplays.recovers c (hreplay ▸ hc)).mp hrecover
      rw [World.inProgress, hpending, hctype] at hprogress
      obtain rfl := Option.some.inj hprogress
      exact (List.nodup_cons.mp hnodup.2.1).1 List.mem_cons_self
  · intro hsingle
    refine ⟨⟨_, hresult⟩, hsucceeded, ?_, ?_, ?_⟩
    · rw [hreplay, World.inProgress, hpending]
      intro c hc
      have hkey := hmem c hc
      cases pending with
      | nil => exact absurd hkey List.not_mem_nil
      | cons type rest =>
        have hrest : request.action = .remove → rest = [] := fun haction =>
          List.length_eq_zero_iff.mp (by simpa using hsingle haction)
        rw [List.head?_cons, Option.some.injEq]
        exact recover_callsOf hnodup.2.1 hrest hkey
    · rw [hreplay, World.inProgress, hpending]
      intro type htype
      cases pending with
      | nil => exact absurd htype (by simp)
      | cons head rest =>
        obtain rfl := Option.some.inj htype
        have hhead : (head, false, true) ∈ new.map Call.key := by
          rw [hkeys]
          simp [callsOf, roundOf]
        obtain ⟨c, hc, hkey⟩ := List.mem_map.mp hhead
        exact ⟨c, hc, congrArg Prod.fst hkey⟩
    · rw [hreplay, h.completed_eq]
      intro c hc hdone
      exact hnodup.2.2 _ hdone _ (mem_of_mem_callsOf (hmem c hc)) rfl

/-- **When a replay finishes the operation that stopped.**  Only a
removal can fail to: its stop may leave a type without a row that is not listed as completed, at
which the replay raises, or more than one type to do, for all of which the replay says `recover`. -/
theorem replay_of_stopped (terms : Terms config request chosen)
    (haccepted : Accepted request chosen w) (h : Stopped config request w t)
    (hrun : ¬Succeeded request t) : Replays config request t ↔ Replayable request t := by
  have hnodup := selected_nodup terms.selected
  obtain rfl | ⟨completed, pending, hunder⟩ | hdone := h.cases terms haccepted
  · have hpending : t.pending = [] := by simp [World.pending, haccepted.idle]
    have hcompleted : t.completed = [] := by simp [World.completed, haccepted.idle]
    obtain ⟨hresult, hsucceeded, new, hcalls, hkeys⟩ := (haccepted.always_mutate terms).2
    refine iff_of_true ⟨⟨_, hresult⟩, hsucceeded, ?_, ?_, ?_⟩ ?_
    · rw [World.inProgress, hpending]
      intro c hc
      have hkey : c.key ∈ callsOf request.action false chosen := by
        rw [← hkeys]
        refine List.mem_map_of_mem ?_
        rwa [replayCalls, hcalls, List.drop_left] at hc
      rw [show c.recover = false from recover_of_mem_callsOf hkey]
      simp
    · rw [World.inProgress, hpending]
      exact fun type htype => absurd htype (by simp)
    · rw [hcompleted]
      exact fun _ _ => List.not_mem_nil
    · intro _
      rw [hpending]
      simp
  · have hpending := hunder.pending_eq hnodup
    by_cases hwhole : Whole request pending t
    · rw [hunder.replays_iff terms hwhole, Replayable, hpending]
      constructor
      · intro hsingle haction
        exact ⟨hwhole (by simp [haction]), hsingle haction⟩
      · exact fun hreplayable haction => (hreplayable haction).2
    · obtain ⟨e, heq⟩ := hunder.run_of_not_whole terms hwhole
      refine iff_of_false (fun hreplays => ?_) fun hreplayable => hwhole ?_
      · obtain ⟨result, hresult⟩ := hreplays.returns
        rw [heq] at hresult
        cases hresult
      · rw [Replayable, hpending] at hreplayable
        intro hne
        cases haction : request.action with
        | create => exact absurd haction hne
        | remove => exact (hreplayable haction).1
        | verify => exact fun type htype => hunder.present type (by
            rw [← hunder.split]
            simp [Request.kept, haction, htype])
        | rotate => exact fun type htype => hunder.present type (by
            rw [← hunder.split]
            simp [Request.kept, haction, htype])
  · exact absurd hdone hrun

/-! ## A removal -/

/-- An application with short names. -/
def sampleNames : Config where
  applicationId := "0123456789abcdef0123456789abcdef"
  slug := "app"
  prefixName := "mit"
  sha256 _ := "fedcba9876543210fedcba9876543210"
  postgresConnections := 5
  newResourceId _ := "resource"
  secretKeys _ _ := ["STORAGE__POSTGRES__DEFAULT__URL"]
  admits _ := true
  finishingAdmits _ := true
  referenced _ := false
  helper _ _ := .error "UNAVAILABLE"

/-- The answer of a helper that does what a call asks for. -/
def sampleReply (c : Call) : Reply where
  providerId :=
    if c.action = .create then some (providerName sampleNames c.type c.resourceName)
    else c.providerId
  providerName :=
    some (if c.action = .create then providerName sampleNames c.type c.resourceName
      else c.providerName)
  credentialName := some "u_1"
  verified := true
  evidenceAccepted := true
  retired := true
  rolledBack := false
  preflightAccepted := true
  confirmedAbsent := true
  environmentRemoved := true
  modifyIndex := some 7
  instancePort := none

/-- A helper that refuses a second call about a type unless it is a recovery. -/
def sampleHelper (earlier : List Call) (c : Call) : Except String Reply :=
  if c.recover || c.preflight || earlier.all fun e =>
      e.operationId != c.operationId || e.type != c.type || e.preflight
  then .ok (sampleReply c)
  else .error "UNSUPPORTED_PRIOR_STATE"

/-- The application with this helper. -/
def sample : Config := { sampleNames with helper := sampleHelper }

/-- The removal of the default PostgreSQL storage. -/
def sampleRemoval : Request where
  action := .remove
  operationId := "operation"
  types := [.postgres]
  resourceName := "default"
  confirmName := some "default"
  confirmDestructive := true
  purgeS3 := false

/-- The storage that is removed. -/
def sampleWorld : World where
  operation := none
  resources := (∅ : Table ResourceType ManagedResource).insert .postgres {
    resourceId := "resource", providerId := some "p_0123456789abcdef0123"
    providerName := "p_0123456789abcdef0123", lifecycleState := .active
    postgresConnections := some 5, instanceId := none, instancePort := none }
  environmentKeys := (∅ : Table ResourceType (List String)).insert .postgres
    ["STORAGE__POSTGRES__DEFAULT__URL"]
  calls := []

theorem sample_identity (type : ResourceType) :
    validIdentity (providerName sampleNames type "default") = true := by
  cases type <;> decide

theorem sample_terms : Terms sample sampleRemoval [.postgres] where
  helper earlier c hid hname hprovided hfirst := by
    refine ⟨sampleReply c, if_pos ?_, ?_⟩
    · simp only [Bool.or_eq_true, List.all_eq_true, bne_iff_ne, ne_eq]
      obtain hrecover | hpre | hfirst := hfirst
      · exact .inl (.inl hrecover)
      · exact .inl (.inr hpre)
      · refine .inr fun e he => ?_
        by_cases hide : e.operationId = c.operationId
        · by_cases htype : e.type = c.type
          · exact .inr (hfirst e he hide htype)
          · exact .inl (.inr htype)
        · exact .inl (.inl hide)
    · refine ⟨fun index hindex => ?_, fun haction => ?_, fun _ => rfl, fun haction => ?_,
        fun _ _ => rfl, fun _ _ => ⟨rfl, rfl⟩⟩
      · cases hindex
        decide
      · refine ⟨rfl, providerName sample c.type c.resourceName, ?_, fun _ => rfl⟩
        have hname' : c.resourceName = "default" := hname
        simp only [identityResult, sampleReply, haction, if_true, hname', sample_identity,
          Bool.and_self]
        rfl
      · obtain ⟨id, hid', hvalid, hvalid'⟩ := hprovided (by simp [haction])
        refine ⟨rfl, rfl, show validIdentity "u_1" = true by decide, id, hid', ?_⟩
        simp [identityResult, sampleReply, haction, hid', hvalid, hvalid']
  selected := rfl
  confirmed := rfl
  finishing := rfl
  capacity _ _ _ := rfl
  unreferenced _ _ _ := rfl

theorem sample_accepted : Accepted sampleRemoval [.postgres] sampleWorld where
  idle := rfl
  fresh op hop := absurd hop (by simp [sampleWorld])
  calls c hc := absurd hc (by simp [sampleWorld])
  absent hcreate := absurd hcreate (by decide)
  present _ type htype := by
    obtain rfl := List.mem_singleton.mp htype
    exact ⟨_, rfl, _, rfl, by decide, by decide⟩

/-- The world after the first transactions and calls of the removal. -/
def sampleStop (n : Nat) : World :=
  (((mutate sample sampleRemoval).stops sampleWorld)[n]?).getD sampleWorld

theorem sample_stopped (n : Nat) : Stopped sample sampleRemoval sampleWorld (sampleStop n) := by
  unfold sampleStop
  cases h : ((mutate sample sampleRemoval).stops sampleWorld)[n]? with
  | none => exact .start
  | some t =>
    refine .attempt .start ?_ (List.mem_of_getElem? h)
    rintro ⟨op, hop, -⟩
    exact absurd hop (by simp [sampleWorld])

/-- The operation of a stop before the last transaction has not succeeded. -/
theorem sample_running {n : Nat}
    (h : (sampleStop n).operation.all fun op => op.status == .running) :
    ¬Succeeded sampleRemoval (sampleStop n) := by
  rintro ⟨op, hop, -, hstatus⟩
  rw [hop, Option.all_some, hstatus] at h
  cases h

/-- A removal that stopped after the helper had removed the database. -/
theorem replay_of_stopped_removal : Replays sample sampleRemoval (sampleStop 7) := by
  refine (replay_of_stopped sample_terms sample_accepted (sample_stopped 7)
    (sample_running (by decide +kernel))).mpr fun _ => ⟨?_, ?_⟩
  · decide +kernel
  · decide +kernel

/-- A removal that stopped after the row was deleted and before the type was listed. -/
theorem deleted_row_unlisted :
    Terms sample sampleRemoval [.postgres] ∧ Accepted sampleRemoval [.postgres] sampleWorld ∧
      Stopped sample sampleRemoval sampleWorld (sampleStop 9) ∧
      ¬Succeeded sampleRemoval (sampleStop 9) ∧ ¬Replays sample sampleRemoval (sampleStop 9) := by
  refine ⟨sample_terms, sample_accepted, sample_stopped 9, sample_running (by decide +kernel), ?_⟩
  rintro ⟨⟨result, hresult⟩, -⟩
  have hraises : ((mutate sample sampleRemoval).run (sampleStop 9)).result.isOk = false := by
    decide +kernel
  rw [hresult] at hraises
  exact absurd hraises (by simp [Except.isOk, Except.toBool])

end Storage
end Controller
end OpenstackPlatform
