import OpenstackPlatform.Broker.Journal

/-!
# What is settled stays so

`Board.Absorbs` says that settled intents and terminal applications keep their state.  Every
transaction of the journal absorbs, except the final write of a flight: it writes by the intent's
identifier and does not look at what the row has become.  `absorbs_answer_iff` says exactly when it
absorbs; `absorbs_run` is the law for runs whose final writes find the intent, and the application
they write, still open.
-/

namespace OpenstackPlatform
namespace Broker

open Library

namespace Board

/-- What is settled in one state of the tables is so, in the same way, in another. -/
structure Absorbs (b b' : Board) : Prop where
  intents : ∀ i row, b.intents.lookup i = some row → row.state.settled = true →
    ∃ row', b'.intents.lookup i = some row' ∧ row'.state = row.state
  apps : ∀ a row, b.apps.lookup a = some row → row.lifecycle.terminal = true →
    ∃ row', b'.apps.lookup a = some row' ∧ row'.lifecycle = row.lifecycle

theorem Absorbs.refl (b : Board) : Absorbs b b :=
  ⟨fun _ row h _ => ⟨row, h, rfl⟩, fun _ row h _ => ⟨row, h, rfl⟩⟩

theorem Absorbs.trans {b b' b'' : Board} (h : Absorbs b b') (h' : Absorbs b' b'') :
    Absorbs b b'' where
  intents i row hrow hsettled := by
    obtain ⟨row', hrow', hstate⟩ := h.intents i row hrow hsettled
    obtain ⟨row'', hrow'', hstate'⟩ := h'.intents i row' hrow' (hstate ▸ hsettled)
    exact ⟨row'', hrow'', hstate'.trans hstate⟩
  apps a row hrow hterminal := by
    obtain ⟨row', hrow', hlifecycle⟩ := h.apps a row hrow hterminal
    obtain ⟨row'', hrow'', hlifecycle'⟩ := h'.apps a row' hrow' (hlifecycle ▸ hterminal)
    exact ⟨row'', hrow'', hlifecycle'.trans hlifecycle⟩

section Writes

variable {b b' : Board} {i : IntentId} {app : AppId}

/-- An update of one intent that is open, or that keeps its state. -/
theorem absorbs_modifyIntent (f : Intent → Intent)
    (hf : ∀ row, b.intents.lookup i = some row → row.state.settled = true →
      (f row).state = row.state) :
    Absorbs b { b with intents := b.intents.modify i f } where
  intents j row hrow hsettled := by
    rw [Table.lookup_modify]
    split
    next heq =>
      subst heq
      exact ⟨f row, by rw [hrow, Option.map_some], hf row hrow hsettled⟩
    next => exact ⟨row, hrow, rfl⟩
  apps _ row hrow _ := ⟨row, hrow, rfl⟩

theorem absorbs_setState (state : IntentState)
    (hopen : ∀ row, b.intents.lookup i = some row → row.state.settled = false) :
    Absorbs b (b.setState i state) := by
  refine absorbs_modifyIntent _ fun row hrow hsettled => ?_
  rw [hopen row hrow] at hsettled
  cases hsettled

/-- An update of one application that keeps its lifecycle, or that it is open to. -/
theorem absorbs_modifyApp (f : App → App)
    (hf : ∀ row, b.apps.lookup app = some row → row.lifecycle.terminal = true →
      (f row).lifecycle = row.lifecycle)
    (configurations : Table (AppId × Nat) Configuration) :
    Absorbs b { b with apps := b.apps.modify app f, configurations := configurations } where
  intents _ row hrow _ := ⟨row, hrow, rfl⟩
  apps a row hrow hterminal := by
    rw [Table.lookup_modify]
    split
    next heq =>
      subst heq
      exact ⟨f row, by rw [hrow, Option.map_some], hf row hrow hterminal⟩
    next => exact ⟨row, hrow, rfl⟩

/-- A new intent. -/
theorem absorbs_record {intent : Intent} (h : b.record i intent = some b') : Absorbs b b' := by
  unfold record at h
  split at h
  next hnone =>
    cases h
    refine ⟨fun j row hrow _ => ⟨row, ?_, rfl⟩, fun _ row hrow _ => ⟨row, hrow, rfl⟩⟩
    rw [Table.lookup_insert_ite, if_neg]
    · exact hrow
    · rintro rfl
      rw [hrow] at hnone
      cases hnone
  next => cases h

/-- A new application. -/
theorem absorbs_insertApp (row : App) (hnone : b.apps.lookup app = none)
    (configurations : Table (AppId × Nat) Configuration) :
    Absorbs b { b with apps := b.apps.insert app row, configurations := configurations } where
  intents _ row hrow _ := ⟨row, hrow, rfl⟩
  apps a row' hrow _ := by
    refine ⟨row', ?_, rfl⟩
    rw [Table.lookup_insert_ite, if_neg]
    · exact hrow
    · rintro rfl
      rw [hnone] at hrow
      cases hrow

/-- Retiring an application that was not rejected settles open intents only. -/
theorem absorbs_retireApp
    (hopen : ∀ row, b.apps.lookup app = some row → row.lifecycle ≠ .rejected) :
    Absorbs b (b.retireApp app) where
  intents i row hrow hsettled := by
    refine ⟨row, ?_, rfl⟩
    show (b.intents.mapRows _).lookup i = _
    rw [Table.lookup_mapRows, hrow, Option.map_some, if_neg]
    intro hretires
    simp only [retires, Bool.and_eq_true, Bool.or_eq_true, beq_iff_eq] at hretires
    rcases hretires.2 with (hstate | hstate) | hstate
    all_goals
      rw [hstate] at hsettled
      exact absurd hsettled (by simp [IntentState.settled])
  apps a row hrow hterminal := by
    show ∃ row', (b.apps.modify app _).lookup a = some row' ∧ _
    rw [Table.lookup_modify]
    split
    next heq =>
      subst heq
      refine ⟨_, by rw [hrow, Option.map_some], ?_⟩
      have hne := hopen row hrow
      cases hlifecycle : row.lifecycle with
      | creating =>
        rw [hlifecycle] at hterminal
        exact absurd hterminal (by simp [Lifecycle.terminal])
      | ready =>
        rw [hlifecycle] at hterminal
        exact absurd hterminal (by simp [Lifecycle.terminal])
      | rejected => exact absurd hlifecycle hne
      | deleted => rfl
    next => exact ⟨row, hrow, rfl⟩

/-! ## The transactions -/

/-- What a record finds under the identifier it gave. -/
theorem lookup_record {intent : Intent} (h : b.record i intent = some b') :
    ∃ row, b'.intents.lookup i = some row ∧ row.state = .prepared := by
  unfold record at h
  split at h
  next =>
    cases h
    exact ⟨_, AList.lookup_insert _, rfl⟩
  next => cases h

theorem absorbs_create {owner user : UserId} {admin : Bool}
    (h : b.create i app owner user admin = some b') : Absorbs b b' := by
  simp only [create, Option.bind_eq_bind, Option.bind_eq_some_iff, Option.guard_eq_some',
    Option.isNone_iff_eq_none] at h
  obtain ⟨-, hnone, b₁, hrecord, h⟩ := h
  cases h
  have happs : b₁.apps = b.apps := by
    unfold record at hrecord
    split at hrecord
    · cases hrecord
      rfl
    · cases hrecord
  exact (absorbs_record hrecord).trans
    (absorbs_insertApp _ (by rw [happs, hnone]) b₁.configurations)

theorem absorbs_adopt {owner user : UserId} {revision : Nat} {configuration : Configuration}
    (h : b.adopt i app owner user revision configuration = some b') : Absorbs b b' := by
  simp only [adopt, Option.bind_eq_bind, Option.bind_eq_some_iff, Option.guard_eq_some',
    Option.isNone_iff_eq_none] at h
  obtain ⟨-, hnone, b₁, hrecord, h⟩ := h
  cases h
  have happs : b₁.apps = b.apps := by
    unfold record at hrecord
    split at hrecord
    · cases hrecord
      rfl
    · cases hrecord
  obtain ⟨row, hrow, hstate⟩ := lookup_record hrecord
  refine ((absorbs_record hrecord).trans
    (absorbs_insertApp _ (by rw [happs, hnone]) _)).trans (absorbs_setState _ fun row' hrow' => ?_)
  cases hrow.symm.trans hrow'
  rw [hstate]
  rfl

theorem absorbs_save {user : UserId} {admin : Bool} {revision : Nat}
    {configuration : Configuration}
    (h : b.save i app user admin revision configuration = some b') : Absorbs b b' := by
  simp only [save, Option.bind_eq_bind, Option.bind_eq_some_iff, Option.guard_eq_some'] at h
  obtain ⟨app', -, -, -, b₁, hrecord, h⟩ := h
  cases h
  obtain ⟨row, hrow, hstate⟩ := lookup_record hrecord
  refine ((absorbs_modifyApp _ (fun row _ _ => ?_) _).trans (absorbs_record hrecord)).trans
    (absorbs_setState _ fun row' hrow' => ?_)
  · rfl
  · cases hrow.symm.trans hrow'
    rw [hstate]
    rfl

theorem absorbs_take {row : Intent} {secret authorized : Bool} {now timeout : Nat}
    (hrow : b.intents.lookup i = some row) (hopen : row.dispatchable secret now = true) :
    Absorbs b (b.take i row authorized now timeout).1 := by
  unfold take
  split
  · refine absorbs_setState _ fun row' hrow' => ?_
    cases hrow.symm.trans hrow'
    cases hstate : row.state with
    | succeeded => simp [Intent.dispatchable, hstate] at hopen
    | failed => simp [Intent.dispatchable, hstate] at hopen
    | prepared => rfl
    | unknown => rfl
    | accepted => rfl
    | blocked => rfl
  · exact absorbs_modifyIntent _ fun row _ _ => rfl

theorem absorbs_observeDeleted : Absorbs b (b.observeDeleted app) := by
  unfold observeDeleted
  split
  next hready =>
    refine absorbs_retireApp fun row hrow => ?_
    rw [hrow] at hready
    rw [of_decide_eq_true hready]
    simp
  next => exact .refl b

theorem absorbs_resume (h : b.resume i = some b') : Absorbs b b' := by
  unfold resume at h
  split at h
  next row hrow =>
    split at h
    · cases h
    split at h
    · cases h
    split at h
    next hstate =>
      cases h
      refine absorbs_setState _ fun row' hrow' => ?_
      cases hrow.symm.trans hrow'
      rcases hstate with hstate | hstate
      all_goals
        rw [hstate]
        rfl
    next =>
      cases h
      exact .refl b
  next => cases h

/-! ## The final write -/

/-- The lifecycle that a final write sets. -/
def written (flight : Flight) (reply : Option Reply) : Option (AppId × Lifecycle) :=
  match flight.row.kind, flight.row.app, (flight.row.answered reply).1 with
  | .appDelete, some app, .succeeded => some (app, .deleted)
  | .createApp, some app, .succeeded => some (app, .ready)
  | .createApp, some app, .failed => some (app, .rejected)
  | _, _, _ => none

/-- The intent after a final write. -/
theorem lookup_answer (flight : Flight) (reply : Option Reply) :
    (b.answer flight reply).intents.lookup flight.intent =
      (b.intents.lookup flight.intent).map fun row =>
        { row with
          state := (flight.row.answered reply).1, operationId := (flight.row.answered reply).2
          lease := 0 } := by
  have hwrite : (b.writeAnswer flight reply).intents.lookup flight.intent =
      (b.intents.lookup flight.intent).map fun row =>
        { row with
          state := (flight.row.answered reply).1, operationId := (flight.row.answered reply).2
          lease := 0 } :=
    (Table.lookup_modify _ _ _ _).trans (if_pos rfl)
  unfold answer
  split
  next hstate =>
    show ((b.writeAnswer flight reply).intents.mapRows _).lookup _ = _
    rw [Table.lookup_mapRows, hwrite, Option.map_map]
    congr 1
    funext row
    rw [Function.comp_apply, if_neg]
    rw [hstate]
    simp [retires]
  next => exact hwrite
  next => exact hwrite
  next => exact hwrite

/-- The application after a final write that sets its lifecycle. -/
theorem lifecycle_answer {flight : Flight} {reply : Option Reply} {lifecycle : Lifecycle}
    (h : written flight reply = some (app, lifecycle)) :
    ((b.answer flight reply).apps.lookup app).map App.lifecycle =
      (b.apps.lookup app).map fun _ => lifecycle := by
  have hmodify : ∀ f : App → App, (∀ row, (f row).lifecycle = lifecycle) →
      ((b.apps.modify app f).lookup app).map App.lifecycle =
        (b.apps.lookup app).map fun _ => lifecycle := by
    intro f hf
    rw [Table.lookup_modify, if_pos rfl, Option.map_map]
    congr 1
    funext row
    exact hf row
  unfold written at h
  split at h
  next hkind happ hstate =>
    cases h
    unfold answer
    rw [hkind, happ, hstate]
    exact hmodify _ fun row => rfl
  next hkind happ hstate =>
    cases h
    unfold answer
    rw [hkind, happ, hstate]
    exact hmodify _ fun row => rfl
  next hkind happ hstate =>
    cases h
    unfold answer
    rw [hkind, happ, hstate]
    exact hmodify _ fun row => rfl
  next => cases h

/-- **Exactly when a final write absorbs.** -/
theorem absorbs_answer_iff {flight : Flight} {reply : Option Reply} :
    Absorbs b (b.answer flight reply) ↔
      (∀ row, b.intents.lookup flight.intent = some row → row.state.settled = true →
        (flight.row.answered reply).1 = row.state) ∧
      ∀ app lifecycle row, written flight reply = some (app, lifecycle) →
        b.apps.lookup app = some row → row.lifecycle.terminal = true →
          lifecycle = row.lifecycle := by
  constructor
  · intro h
    refine ⟨fun row hrow hsettled => ?_, fun app lifecycle row hwritten hrow hterminal => ?_⟩
    · obtain ⟨row', hrow', hstate⟩ := h.intents _ row hrow hsettled
      rw [lookup_answer, hrow, Option.map_some] at hrow'
      cases hrow'
      exact hstate
    · obtain ⟨row', hrow', hlifecycle⟩ := h.apps app row hrow hterminal
      have hset := lifecycle_answer (b := b) hwritten
      rw [hrow, hrow', Option.map_some, Option.map_some] at hset
      exact (Option.some.inj hset).symm.trans hlifecycle
  · rintro ⟨hintent, happ⟩
    have hfirst : Absorbs b (b.writeAnswer flight reply) := absorbs_modifyIntent _ hintent
    unfold written at happ
    unfold answer
    split
    next app hkind hsome hstate =>
      rw [hkind, hsome, hstate] at happ
      refine hfirst.trans (absorbs_retireApp fun row hrow hrejected => ?_)
      have hdeleted := happ app .deleted row rfl hrow (by rw [hrejected]; rfl)
      rw [hrejected] at hdeleted
      cases hdeleted
    next app hkind hsome hstate =>
      rw [hkind, hsome, hstate] at happ
      exact hfirst.trans (absorbs_modifyApp _ (happ app .ready · rfl) _)
    next app hkind hsome hstate =>
      rw [hkind, hsome, hstate] at happ
      exact hfirst.trans (absorbs_modifyApp _ (happ app .rejected · rfl) _)
    next => exact hfirst

/-- What a final write needs to find: the intent still open, and, where it may write the lifecycle of
its application, that application too. -/
def openFor (b : Board) (flight : Flight) : Bool :=
  (b.intents.lookup flight.intent).all (fun row => !row.state.settled) &&
    match flight.row.kind, flight.row.app with
    | .createApp, some app => (b.apps.lookup app).all fun row => !row.lifecycle.terminal
    | .appDelete, some app => (b.apps.lookup app).all fun row => row.lifecycle != .rejected
    | _, _ => true

theorem absorbs_answer {flight : Flight} (hopen : b.openFor flight = true)
    (reply : Option Reply) : Absorbs b (b.answer flight reply) := by
  unfold openFor at hopen
  rw [Bool.and_eq_true] at hopen
  refine absorbs_answer_iff.mpr ⟨fun row hrow hsettled => ?_,
    fun app lifecycle row hwritten hrow hterminal => ?_⟩
  · have hrow' := hopen.1
    rw [hrow, Option.all_some, hsettled] at hrow'
    cases hrow'
  · have happ := hopen.2
    unfold written at hwritten
    split at hwritten
    next hkind hsome _ =>
      cases hwritten
      rw [hkind, hsome] at happ
      simp only [hrow, Option.all_some, bne_iff_ne, ne_eq] at happ
      cases hlifecycle : row.lifecycle with
      | deleted => rfl
      | rejected => exact absurd hlifecycle happ
      | creating => simp [hlifecycle, Lifecycle.terminal] at hterminal
      | ready => simp [hlifecycle, Lifecycle.terminal] at hterminal
    next hkind hsome _ =>
      cases hwritten
      rw [hkind, hsome] at happ
      simp only [hrow, Option.all_some, hterminal] at happ
      cases happ
    next hkind hsome _ =>
      cases hwritten
      rw [hkind, hsome] at happ
      simp only [hrow, Option.all_some, hterminal] at happ
      cases happ
    next => cases hwritten

end Writes
end Board

namespace Journal

/-- Whether a step is not a final write that comes too late. -/
def timely (j : Journal) : JournalLabel → Bool
  | .answer f _ => (j.flights.lookup f).all fun flight => j.board.openFor flight
  | _ => true

/-- **Every timely step absorbs.** -/
theorem step_absorbs {j j' : Journal} {l : JournalLabel} (htimely : j.timely l = true)
    (h : j.step l j') : j.board.Absorbs j'.board := by
  cases l with
  | record i intent =>
    obtain ⟨b, hrecord, rfl⟩ := Option.map_eq_some_iff.mp h
    exact Board.absorbs_record hrecord
  | create i app owner user admin =>
    obtain ⟨b, hcreate, rfl⟩ := Option.map_eq_some_iff.mp h
    exact Board.absorbs_create hcreate
  | adopt i app owner user revision configuration =>
    obtain ⟨b, hadopt, rfl⟩ := Option.map_eq_some_iff.mp h
    exact Board.absorbs_adopt hadopt
  | save i app user admin revision configuration =>
    obtain ⟨b, hsave, rfl⟩ := Option.map_eq_some_iff.mp h
    exact Board.absorbs_save hsave
  | take f i secret authorized now timeout =>
    simp only [step, next] at h
    split at h
    next row hrow =>
      split at h
      next hopen =>
        cases h
        rw [Bool.and_eq_true] at hopen
        exact Board.absorbs_take hrow hopen.1
      next => cases h
    next => cases h
  | answer f reply =>
    obtain ⟨flight, hflight, rfl⟩ := Option.map_eq_some_iff.mp h
    have htimely : (j.flights.lookup f).all (fun flight => j.board.openFor flight) = true := htimely
    rw [hflight, Option.all_some] at htimely
    exact Board.absorbs_answer htimely reply
  | observeDeleted app =>
    cases h
    exact Board.absorbs_observeDeleted
  | resume i =>
    obtain ⟨b, hresume, rfl⟩ := Option.map_eq_some_iff.mp h
    exact Board.absorbs_resume hresume

/-- **Terminal states are absorbing.**  Along every run whose final writes are timely, an intent that
is settled keeps its state, and an application that is deleted or rejected stays so. -/
theorem absorbs_run {j j' : Journal} {ls : List JournalLabel}
    (h : Run (restrict step fun j l => j.timely l = true) j ls j') :
    j.board.Absorbs j'.board := by
  refine h.invariant (I := fun k => j.board.Absorbs k.board) (.refl _) ?_
  rintro k l k' habsorbs ⟨hstep, htimely⟩
  exact habsorbs.trans (step_absorbs htimely hstep)

/-- An application is created, and deleted while the controller has not answered yet. -/
def lateLabels : List JournalLabel :=
  [.create 1 10 5 5 false, .take 100 1 false true 0 5,
    .record 2 { user := 6, app := some 10, kind := .appDelete, controllerKey := 2, portalAdmin := true },
    .take 101 2 false true 1 5, .answer 101 (some { status := 202, operationId := some 2 }),
    .take 102 2 false true 2 5,
    .answer 102 (some
      { status := 200, operationId := some 2, operationStatus := some .succeeded
        scope := some (.app (some 10)), cleanupSettled := true })]

/-- An application is created, and the controller has answered. -/
def createdLabels : List JournalLabel :=
  [.create 1 10 5 5 false, .take 100 1 false true 0 5,
    .answer 100 (some { status := 201, applicationId := some 10 })]

/-- The creation is settled, and stays so in the deletion that follows. -/
theorem absorbs_run_deletion : ∃ j ls j',
    (j.board.intents.lookup 1).map Intent.state = some .succeeded ∧
    Run (restrict step fun j l => j.timely l = true) j ls j' ∧ j.board.Absorbs j'.board ∧
    (j'.board.apps.lookup 10).map App.lifecycle = some .deleted ∧
    (j'.board.intents.lookup 1).map Intent.state = some .succeeded := by
  obtain ⟨j, hj, hfacts⟩ := Option.map_eq_some_iff.mp
    (by decide +kernel : ((createdLabels.foldlM next {}).map fun j : Journal =>
      ((j.board.intents.lookup 1).map Intent.state,
        ((lateLabels.drop 2).foldlM
          (fun (j : Journal) l => if j.timely l then j.next l else none) j).map fun j' =>
            ((j'.board.apps.lookup 10).map App.lifecycle,
              (j'.board.intents.lookup 1).map Intent.state))) =
      some (some .succeeded, some (some .deleted, some .succeeded)))
  simp only [Prod.mk.injEq] at hfacts
  obtain ⟨hstate, hlater⟩ := hfacts
  obtain ⟨j', hrun, hj'⟩ := Option.map_eq_some_iff.mp hlater
  simp only [Prod.mk.injEq] at hj'
  have hrun' : Run (restrict step fun j l => j.timely l = true) j (lateLabels.drop 2) j' := by
    refine (Run.of_foldlM hrun).mono fun k l k' hnext => ?_
    split at hnext
    next htimely => exact ⟨hnext, htimely⟩
    next => cases hnext
  exact ⟨j, _, j', hstate, hrun', absorbs_run hrun', hj'.1, hj'.2⟩

/-- **A late answer overturns what is settled.**  The intent that created the application had failed
with its deletion, and the application was deleted; the answer makes them succeeded and ready. -/
theorem settled_overturned : ∃ ls j l j', Run step {} ls j ∧ step j l j' ∧
    (j.board.intents.lookup 1).map Intent.state = some .failed ∧
    (j'.board.intents.lookup 1).map Intent.state = some .succeeded ∧
    (j.board.apps.lookup 10).map App.lifecycle = some .deleted ∧
    (j'.board.apps.lookup 10).map App.lifecycle = some .ready := by
  obtain ⟨j, hrun, hj⟩ := Option.map_eq_some_iff.mp
    (by decide +kernel : ((lateLabels.foldlM next {}).map fun j : Journal =>
      ((j.board.intents.lookup 1).map Intent.state, (j.board.apps.lookup 10).map App.lifecycle,
        (j.next (.answer 100 (some { status := 201, applicationId := some 10 }))).map fun j' =>
          ((j'.board.intents.lookup 1).map Intent.state,
            (j'.board.apps.lookup 10).map App.lifecycle))) =
      some (some .failed, some .deleted, some (some .succeeded, some .ready)))
  simp only [Prod.mk.injEq] at hj
  obtain ⟨hintent, happ, hnext⟩ := hj
  obtain ⟨j', hstep, hj'⟩ := Option.map_eq_some_iff.mp hnext
  simp only [Prod.mk.injEq] at hj'
  exact ⟨lateLabels, j, _, j', Run.of_foldlM hrun, hstep, hintent, hj'.1, happ, hj'.2⟩

end Journal
end Broker
end OpenstackPlatform
