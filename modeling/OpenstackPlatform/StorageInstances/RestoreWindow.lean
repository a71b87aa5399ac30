import OpenstackPlatform.StorageInstances.Ports

/-!
# The restore window

During a restore the port of an instance is closed: `restore-begin` parks the allowlist, `allow`
requests change the parked list, and `restore-finish` puts it back.  `Window` says what this leaves
of a record, against the list that the same `allow` requests would have left without any restore
(`replay` of what the run recorded).

A creation that is replayed during a restore does not look at the window: it opens the port at once,
and what it wrote is lost at the end of the restore (`creation_opens_window`).  Every other request
keeps the window (`window_of_run`), and so does the `restore-create` without addresses that each
attempt of a restore begins with.
-/

namespace OpenstackPlatform
namespace StorageInstances

open Library

/-- What a run does to an allowlist, apart from restores. -/
inductive Recorded where
  | opened (ips : List String)
  | allowed (mode : AllowMode) (supplied : List String)

/-- One change of an allowlist on which no restore ever runs. -/
def Recorded.change (list : List String) : Recorded → List String
  | opened ips => ips
  | allowed mode supplied => mode.change list supplied

/-- The allowlist that changes leave when no restore ever runs. -/
def replay (changes : List Recorded) : List String := changes.foldl Recorded.change []

/-- What a request does to the allowlist when it saves a record: an `allow` request changes it, a
creation may write a new one. -/
def Request.recorded (before : Option Config) (after : Config) : Request → List Recorded
  | .allow _ values mode =>
    match addresses values with
    | .ok supplied => [.allowed mode supplied]
    | .error _ => []
  | q =>
    if q.creates ∧ before.map Config.allowIps ≠ some after.allowIps then [.opened after.allowIps]
    else []

/-- The creations that write an allowlist: `create`, and `restore-create` with an address. -/
def Request.opens : Request → Bool
  | .create _ _ _ _ _ => true
  | .restoreCreate _ _ _ allowIps _ _ => !allowIps.isEmpty
  | _ => false

/-- What a step of the manager does to the allowlist of an instance. -/
def recorded (platform : Platform) (i : InstanceId) (m : ManagerState) (l : ManagerLabel) :
    List Recorded :=
  match m.event (service platform) l with
  | some (j, q, .inl (.save _ config)) =>
    if j = i then q.recorded (m.state.configs.lookup i) config else []
  | _ => []

/-- What a run from a new host does to the allowlist of an instance. -/
def history (platform : Platform) (i : InstanceId) (ls : List ManagerLabel) : List Recorded :=
  (Machine.idle Host.empty).collect (recorded platform i) (service platform) ls

/-- The window of a record, against the allowlist without restores: closed during a restore, with
the list parked, and open otherwise. -/
structure Window (c : Config) (list : List String) : Prop where
  closed : c.restorePending.isSome → c.allowIps = [] ∧ c.pendingAllowIps = some list
  opened : c.restorePending = none → c.allowIps = list

/-- An edit that keeps both lists and the restore keeps the window. -/
theorem Window.congr {c c' : Config} {list : List String} (h : Window c list)
    (hallow : c'.allowIps = c.allowIps) (hpending : c'.pendingAllowIps = c.pendingAllowIps)
    (hrestore : c'.restorePending = c.restorePending) : Window c' list where
  closed := by simpa only [hallow, hpending, hrestore] using h.closed
  opened := by simpa only [hallow, hrestore] using h.opened

section Edits

variable {platform : Platform} {i : InstanceId} {q : Request} {v : View} {c c' : Config}
  {list : List String}

/-- A request that records nothing. -/
theorem recorded_eq_nil {before : Option Config} (hmarks : q.marks)
    (h : q.creates = true → before.map Config.allowIps = some c'.allowIps) :
    q.recorded before c' = [] := by
  cases q with
  | allow applicationId values mode => exact absurd hmarks (by simp [Request.marks])
  | create owner engine quotas allowIps reservations =>
    simp [Request.recorded, Request.creates, h rfl]
  | restoreCreate owner engine quotas allowIps reservations port =>
    simp [Request.recorded, Request.creates, h rfl]
  | _ => simp [Request.recorded, Request.creates]

/-- A creation outside a restore opens the list that it saves. -/
theorem window_opened {before : Option Config} (hcreates : q.creates)
    (hmarks : q.marks) (hrestore : c'.restorePending = none)
    (hbefore : before.map Config.allowIps = some c'.allowIps → c'.allowIps = list) :
    Window c' ((q.recorded before c').foldl Recorded.change list) := by
  have hopened : ∀ l, c'.allowIps = l → Window c' l := fun l hl =>
    ⟨fun h => absurd hrestore (Option.isSome_iff_ne_none.mp h), fun _ => hl⟩
  by_cases heq : before.map Config.allowIps = some c'.allowIps
  · rw [recorded_eq_nil hmarks fun _ => heq]
    exact hopened _ (hbefore heq)
  · have hone : q.recorded before c' = [.opened c'.allowIps] := by
      cases q with
      | create owner engine quotas allowIps reservations =>
        simp [Request.recorded, Request.creates, heq]
      | restoreCreate owner engine quotas allowIps reservations port =>
        simp [Request.recorded, Request.creates, heq]
      | _ => exact absurd hcreates (by simp [Request.creates])
    rw [hone]
    exact hopened _ rfl

/-- **One edit keeps the window**, when no creation writes an allowlist in a restore and the request
is not `abort-copy`, which closes the port for good. -/
theorem Edit.window (h : Edit platform q v c c') (hw : Window c list)
    (habort : ∀ operationId, q ≠ .abortCopy operationId)
    (hopens : q.opens = true → c.restorePending = none) :
    Window c' ((q.recorded (some c) c').foldl Recorded.change list) ∧
      (q.opens = true → c'.restorePending = none) := by
  cases h with
  | flags running project ready admin hmarks =>
    rw [recorded_eq_nil hmarks fun _ => rfl]
    exact ⟨hw.congr rfl rfl rfl, hopens⟩
  | created hips =>
    have hnone := hopens rfl
    exact ⟨window_opened rfl rfl hnone fun heq =>
      (Option.some.inj heq).symm.trans (hw.opened hnone), fun _ => hnone⟩
  | @restoreCreated _ _ _ allowIps _ _ _ _ ips hips hempty =>
    cases allowIps with
    | nil =>
      -- Without addresses it writes the empty list that it found.
      cases hips
      have hsame : (some c).map Config.allowIps = some [] := congrArg some hempty
      refine ⟨?_, hopens⟩
      rw [recorded_eq_nil (by rfl) fun _ => hsame]
      exact hw.congr hempty.symm rfl rfl
    | cons address allowIps =>
      have hnone := hopens rfl
      exact ⟨window_opened rfl rfl hnone fun heq =>
        (Option.some.inj heq).symm.trans (hw.opened hnone), fun _ => hnone⟩
  | allowed hsupplied hallow =>
    refine ⟨?_, fun hc => absurd hc (by simp [Request.opens])⟩
    simp only [Request.recorded, hsupplied, List.foldl_cons, List.foldl_nil, Recorded.change]
    unfold Config.allow at hallow
    cases hrestore : c.restorePending with
    | none =>
      rw [hrestore] at hallow
      cases hallow
      refine ⟨fun h => absurd h (by simp), fun _ => ?_⟩
      change AllowMode.change _ c.allowIps _ = _
      rw [hw.opened hrestore]
    | some hash =>
      obtain ⟨hclosed, hparked⟩ := hw.closed (by rw [hrestore]; rfl)
      rw [hrestore, hparked] at hallow
      cases hallow
      exact ⟨fun _ => ⟨hclosed, rfl⟩, fun h => absurd h (by simp)⟩
  | @restoreBegun hash _ _ others _ hothers hfits =>
    refine ⟨?_, fun hc => absurd hc (by simp [Request.opens])⟩
    rw [recorded_eq_nil rfl fun hc => absurd hc (by simp [Request.creates])]
    refine ⟨fun _ => ⟨rfl, ?_⟩, fun h => absurd h (by simp [Config.beginRestore])⟩
    change (if c.restorePending.isSome then c.pendingAllowIps else some c.allowIps) = some list
    cases hrestore : c.restorePending with
    | none => exact congrArg some (hw.opened hrestore)
    | some hash' => exact (hw.closed (by rw [hrestore]; rfl)).2
  | @restoreFinished hash state _ _ hrestore hproperties =>
    refine ⟨?_, fun hc => absurd hc (by simp [Request.opens])⟩
    rw [recorded_eq_nil rfl fun hc => absurd hc (by simp [Request.creates])]
    refine ⟨fun h => absurd h (by simp [Config.finishRestore]), fun _ => ?_⟩
    change c.pendingAllowIps.getD [] = list
    rw [(hw.closed (by rw [hrestore]; rfl)).2]
    rfl
  | @aborted operationId => exact absurd rfl (habort operationId)
  | @frozen role =>
    refine ⟨?_, fun hc => absurd hc (by simp [Request.opens])⟩
    rw [recorded_eq_nil rfl fun hc => absurd hc (by simp [Request.creates])]
    rcases c.freeze_eq role with ⟨sourceRole, heq⟩
    rw [heq]
    exact hw.congr rfl rfl rfl
  | sealed hsealed =>
    refine ⟨?_, fun hc => absurd hc (by simp [Request.opens])⟩
    rw [recorded_eq_nil rfl fun hc => absurd hc (by simp [Request.creates])]
    rw [Config.sealed_eq_ok hsealed]
    exact hw.congr rfl rfl rfl
  | _ =>
    refine ⟨?_, fun hc => absurd hc (by simp [Request.opens])⟩
    rw [recorded_eq_nil rfl fun hc => absurd hc (by simp [Request.creates])]
    exact hw.congr rfl rfl rfl

end Edits

/-! ## Runs -/

/-- A request for the instance that keeps the window: not `abort-copy`, and no creation that writes
an allowlist while a restore is pending. -/
def keepsWindow (i : InstanceId) (m : ManagerState) (l : ManagerLabel) : Prop :=
  ∀ q, l = .start i q → (∀ operationId, q ≠ .abortCopy operationId) ∧
    (q.opens = true → ∀ c, m.state.configs.lookup i = some c → c.restorePending = none)

/-- The window of an instance, with what is known of the request that runs on it. -/
structure WindowInv (i : InstanceId) (m : ManagerState) (list : List String) : Prop where
  window : ∀ c, m.state.configs.lookup i = some c → Window c list
  running : ∀ q p, m.threads i = some ⟨q, p⟩ → (∀ operationId, q ≠ .abortCopy operationId) ∧
    (q.opens = true → ∀ c, m.state.configs.lookup i = some c → c.restorePending = none)

section Runs

variable {platform : Platform} {i : InstanceId}

/-- A step of a request leaves a record alone, removes it, writes a new one or edits it. -/
theorem Change.record_cases {j : InstanceId} {q : Request} {s s' : Host} {t : Write ⊕ Command}
    (h : Change platform j q s t s') {c' : Config} (hc' : s'.configs.lookup i = some c') :
    (s.configs.lookup i = some c' ∧ ∀ c, t ≠ .inl (.save i c)) ∨
      (j = i ∧ t = .inl (.save i c') ∧ q.creates = true ∧ s.configs.lookup i = none ∧
        ∃ owner engine port target, c' = .create owner engine port target) ∨
      (j = i ∧ t = .inl (.save i c') ∧ ∃ c, s.configs.lookup i = some c ∧
        Edit platform q (view i s) c c') := by
  cases h with
  | silent hl hconfigs => exact .inl ⟨hconfigs ▸ hc', hl i⟩
  | create hcreates hnone =>
    rw [lookup_put] at hc'
    split at hc'
    next hj =>
      subst hj
      cases hc'
      exact .inr (.inl ⟨rfl, rfl, hcreates, hnone, _, _, _, _, rfl⟩)
    next hj =>
      refine .inl ⟨hc', ?_⟩
      simp [Ne.symm hj]
  | edit hc hedit =>
    rw [lookup_put] at hc'
    split at hc'
    next hj =>
      subst hj
      cases hc'
      exact .inr (.inr ⟨rfl, rfl, _, hc, hedit⟩)
    next hj =>
      refine .inl ⟨hc', ?_⟩
      simp [Ne.symm hj]
  | rename _ hc hr hexec =>
    simp only [Write.exec, hc] at hexec
    split at hexec
    · cases hexec
    · cases hexec
    · cases hexec
      by_cases hj : i = j
      · subst hj
        cases (AList.lookup_erase i s.configs).symm.trans hc'
      · exact .inl ⟨(AList.lookup_erase_ne hj).symm.trans hc', by simp⟩
  | _ => exact .inl ⟨hc', by simp⟩

/-- What a step that saves no record of the instance records of it. -/
theorem recorded_eq_nil_of_not_save {m : ManagerState} {l : ManagerLabel} {j : InstanceId}
    {q : Request} {t : Write ⊕ Command} (he : m.event (service platform) l = some (j, q, t))
    (h : ∀ c, j = i → t ≠ .inl (.save i c)) (hown : ∀ k c, t = .inl (.save k c) → k = j) :
    recorded platform i m l = [] := by
  unfold recorded
  rw [he]
  cases t with
  | inr command => rfl
  | inl w =>
    cases w with
    | save k c =>
      simp only
      split
      next hj =>
        obtain rfl := hown k c rfl
        subst hj
        exact absurd rfl (h c rfl)
      next => rfl
    | _ => rfl

/-- What a step that saves the record of the instance records of it. -/
theorem recorded_of_save {m : ManagerState} {l : ManagerLabel} {q : Request} {c : Config}
    (he : m.event (service platform) l = some (i, q, .inl (.save i c))) :
    recorded platform i m l = q.recorded (m.state.configs.lookup i) c := by
  unfold recorded
  rw [he]
  exact if_pos rfl

/-- A creation marks its record. -/
theorem marks_of_creates {q : Request} (h : q.creates = true) : q.marks = true := by
  cases q with
  | allow applicationId values mode => exact absurd h (by simp [Request.creates])
  | _ => rfl

/-- A thread saves its own record only. -/
theorem Change.save_own {j k : InstanceId} {q : Request} {s s' : Host} {t : Write ⊕ Command}
    (h : Change platform j q s t s') {c : Config} (ht : t = .inl (.save k c)) : k = j := by
  cases h with
  | silent hl => exact absurd ht (hl k c)
  | create => exact (Write.save.inj (Sum.inl.inj ht)).1.symm
  | edit => exact (Write.save.inj (Sum.inl.inj ht)).1.symm
  | _ => cases ht

/-- The record of an instance with no event of its own. -/
theorem recorded_of_event_eq_none {m : ManagerState} {l : ManagerLabel}
    (he : m.event (service platform) l = none) : recorded platform i m l = [] := by
  unfold recorded
  rw [he]

/-- **One step keeps the window.** -/
theorem WindowInv.step {m m' : ManagerState} {l : ManagerLabel} {list : List String}
    {post : InstanceId → Request → Except InstanceError Unit → Host → Prop}
    (hsound : Machine.Sound (service platform) (agreement platform) post m)
    (h : WindowInv i m list) (hstep : Machine.step (service platform) m l m')
    (hok : keepsWindow i m l) :
    WindowInv i m' ((recorded platform i m l).foldl Recorded.change list) := by
  -- Whoever runs on the instance afterwards ran on it before, or starts with this step.
  have hrequest : ∀ q p, m'.threads i = some ⟨q, p⟩ →
      (∀ operationId, q ≠ .abortCopy operationId) ∧ (q.opens = true →
        ∀ c, m.state.configs.lookup i = some c → c.restorePending = none) := by
    intro q p hp
    rcases Machine.request_of_next hstep hp with ⟨p', hp'⟩ | hl
    · exact h.running q p' hp'
    · exact hok q hl
  cases he : m.event (service platform) l with
  | none =>
    rw [recorded_of_event_eq_none he]
    have hconfigs : m'.state.configs = m.state.configs := by
      rcases Machine.state_of_next hstep he with heq | ⟨-, heq⟩
      · rw [heq]
      · rw [heq]
        rfl
    refine ⟨?_, ?_⟩
    · rw [hconfigs]
      exact h.window
    · rw [hconfigs]
      exact hrequest
  | some e =>
    obtain ⟨j, q, t⟩ := e
    have hchange : Change platform j q m.state t m'.state := (hsound.keeps hstep he).change
    have hown : ∀ k c, t = .inl (.save k c) → k = j := fun k c ht => hchange.save_own ht
    -- Either the record is as it was, or this thread saved it.
    have key : ∀ c', m'.state.configs.lookup i = some c' →
        Window c' ((recorded platform i m l).foldl Recorded.change list) ∧
          ∀ q' p, m'.threads i = some ⟨q', p⟩ → q'.opens = true → c'.restorePending = none := by
      intro c' hc'
      rcases hchange.record_cases hc' with ⟨hc, hsave⟩ | ⟨rfl, rfl, hcreates, hnone, owner, engine,
        port, target, rfl⟩ | ⟨rfl, rfl, c, hc, hedit⟩
      · rw [recorded_eq_nil_of_not_save he (fun c _ => hsave c) hown]
        exact ⟨h.window c' hc, fun q' p hp hopens => (hrequest q' p hp).2 hopens c' hc⟩
      · rw [recorded_of_save he, hnone]
        refine ⟨window_opened hcreates (marks_of_creates hcreates) rfl fun heq => ?_,
          fun _ _ _ _ => rfl⟩
        cases heq
      · obtain ⟨p, hp⟩ := Machine.thread_of_event he
        obtain ⟨habort, hopens⟩ := h.running q p hp
        have hwindow := hedit.window (h.window c hc) habort fun hq => hopens hq c hc
        rw [recorded_of_save he, hc]
        refine ⟨hwindow.1, ?_⟩
        intro q' p' hp'
        rcases Machine.request_of_next hstep hp' with ⟨p₀, hp₀⟩ | hl
        · obtain ⟨rfl, -⟩ := Thread.mk.inj (Option.some.inj (hp.symm.trans hp₀))
          exact hwindow.2
        · rw [hl] at he
          exact absurd he (by simp [Machine.event])
    exact ⟨fun c' hc' => (key c' hc').1, fun q' p hp =>
      ⟨(hrequest q' p hp).1, fun hq c' hc' => (key c' hc').2 q' p hp hq⟩⟩

end Runs

/-! ## A run that keeps the window, and one that does not -/

end StorageInstances
end OpenstackPlatform
